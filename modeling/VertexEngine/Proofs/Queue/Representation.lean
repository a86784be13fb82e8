import Mathlib.Data.List.Nodup
import VertexEngine.Proofs.Queue.Order

/-!
# What a queue holds

`TaskQueue.Holds q xs` says that a queue holds exactly the tasks `xs`, each with its number, in the
sequence in which they go.  The tree of entries, the order of keys and the index by vertex are three
accounts of the same list, and `Holds` has a clause for each of them.

* `Holds.push_new`, `Holds.push_merged` and `Holds.push_promoted` are the three ways of a request.
* `Holds.popWhere` takes out the first eligible task.
* `Holds.toList` reads the list back by popping everything.
-/

namespace VertexEngine

namespace TaskQueue

variable {F : Type}

/-- The key of a numbered task. -/
def keyOf (x : Nat × Task F) : Key :=
  ⟨x.2.priority, x.1, x.2.vertex⟩

/-- The place of a numbered task among others. -/
def rankOf (x : Nat × Task F) : Int :=
  Priority.rank x.2.priority

theorem map_keyOf_place (kind : SchedulerKind) (x : Nat × Task F) (xs : List (Nat × Task F)) :
    (place rankOf kind x xs).map keyOf =
      place (fun k => Priority.rank k.priority) kind (keyOf x) (xs.map keyOf) :=
  map_place keyOf (fun k => Priority.rank k.priority) kind x xs

/-- A numbered task, changed if its number is `n`. -/
def changeAt (n : Nat) (f : Task F → Task F) (x : Nat × Task F) : Nat × Task F :=
  if x.1 = n then (x.1, f x.2) else x

theorem changeAt_fst (n : Nat) (f : Task F → Task F) (x : Nat × Task F) :
    (changeAt n f x).1 = x.1 := by
  unfold changeAt
  split <;> rfl

theorem keyOf_changeAt {f : Task F → Task F} (hv : ∀ t, (f t).vertex = t.vertex)
    (hp : ∀ t, (f t).priority = t.priority) (n : Nat) (x : Nat × Task F) :
    keyOf (changeAt n f x) = keyOf x := by
  unfold changeAt
  split
  · simp [keyOf, hv, hp]
  · rfl

/-- The entries and the order of a queue hold the numbered tasks `xs`. -/
structure Stores (q : TaskQueue F) (xs : List (Nat × Task F)) : Prop where
  entry : ∀ n t, q.entries[n]? = some t ↔ (n, t) ∈ xs
  nodup : (xs.map Prod.fst).Nodup
  lists : q.order.Lists (q.entries.contains ·.seq) q.kind (xs.map keyOf)
  /-- No number was given twice, not even to a task that is gone. -/
  distinct : (q.order.keys.map Key.seq).Nodup
  fresh : ∀ k ∈ q.order.keys, k.seq < q.nextSeq
  finite : ∀ x ∈ xs, x.2.priority.isFinite = true

/-- A queue holds the numbered tasks `xs`, in the sequence in which they go. -/
structure Holds (q : TaskQueue F) (xs : List (Nat × Task F)) : Prop extends Stores q xs where
  index : ∀ v n, q.byVertex[v]? = some n ↔
    q.policy.isDeduplicating = true ∧ ∃ t, (n, t) ∈ xs ∧ t.vertex = v

namespace Stores

variable {q : TaskQueue F} {xs : List (Nat × Task F)}

theorem contains_eq_true {n : Nat} (h : Stores q xs) :
    q.entries.contains n = true ↔ ∃ t, (n, t) ∈ xs := by
  rw [Std.TreeMap.contains_eq_isSome_getElem?, Option.isSome_iff_exists]
  exact exists_congr fun t => h.entry n t

theorem live_keyOf (h : Stores q xs) : ∀ k ∈ xs.map keyOf, q.entries.contains k.seq = true := by
  intro k hk
  obtain ⟨x, hx, rfl⟩ := List.mem_map.mp hk
  exact h.contains_eq_true.mpr ⟨x.2, hx⟩

theorem lt_nextSeq (h : Stores q xs) {x : Nat × Task F} (hx : x ∈ xs) : x.1 < q.nextSeq :=
  h.fresh (keyOf x) (h.lists.subset _ (List.mem_map_of_mem hx))

theorem eq_of_fst_eq (h : Stores q xs) {x y : Nat × Task F} (hx : x ∈ xs) (hy : y ∈ xs)
    (hxy : x.1 = y.1) : x = y :=
  List.inj_on_of_nodup_map h.nodup hx hy hxy

/-- The tasks of a priority queue go by their keys. -/
theorem pairwise_before (h : Stores q xs) (hk : q.kind = .priority) :
    xs.Pairwise fun x y => (keyOf x).before (keyOf y) = true := by
  have hlists := h.lists
  rw [hk] at hlists
  exact List.pairwise_map.mp hlists.pairwise_before

/-- A new task goes in its place under the next number. -/
theorem insert (h : Stores q xs) {t : Task F} (ht : t.priority.isFinite = true) :
    Stores (q.insert t) (place rankOf q.kind (q.nextSeq, t) xs) := by
  have hkeys : (q.insert t).order.keys.Perm (keyOf (q.nextSeq, t) :: q.order.keys) :=
    q.order.keys_insert _
  have hold : ∀ x ∈ xs, x.1 ≠ q.nextSeq := fun x hx => Nat.ne_of_lt (h.lt_nextSeq hx)
  have hseq : ∀ k ∈ q.order.keys, k.seq ≠ q.nextSeq := fun k hk => Nat.ne_of_lt (h.fresh k hk)
  refine ⟨?_, ?_, ?_, ?_, ?_, ?_⟩
  · intro n u
    simp only [TaskQueue.insert, Std.TreeMap.getElem?_insert, mem_place, Prod.mk.injEq,
      Nat.compare_eq_eq]
    split
    · rename_i hn
      subst hn
      have : ¬(q.nextSeq, u) ∈ xs := fun hx => hold _ hx rfl
      simp [this, eq_comm]
    · rename_i hn
      simp [h.entry, Ne.symm hn]
  · rw [((perm_place rankOf q.kind (q.nextSeq, t) xs).map Prod.fst).nodup_iff, List.map_cons,
      List.nodup_cons]
    refine ⟨fun hmem => ?_, h.nodup⟩
    obtain ⟨x, hx, hx'⟩ := List.mem_map.mp hmem
    exact hold x hx hx'
  · rw [map_keyOf_place]
    have hlive : ∀ k ∈ q.order.keys,
        (q.insert t).entries.contains k.seq = q.entries.contains k.seq := by
      intro k hk
      simp only [TaskQueue.insert, Std.TreeMap.contains_insert]
      simp [Ne.symm (hseq k hk)]
    refine (h.lists.congr_live hlive).insert ?_ ?_
    · simp [TaskQueue.insert]
    · intro k hk
      exact h.fresh k (h.lists.subset k hk)
  · rw [(hkeys.map Key.seq).nodup_iff, List.map_cons, List.nodup_cons]
    refine ⟨fun hmem => ?_, h.distinct⟩
    obtain ⟨k, hk, hk'⟩ := List.mem_map.mp hmem
    exact hseq k hk hk'
  · intro k hk
    show k.seq < q.nextSeq + 1
    rcases List.mem_cons.mp (hkeys.mem_iff.mp hk) with rfl | hk
    · exact Nat.lt_succ_self _
    · exact Nat.lt_succ_of_lt (h.fresh k hk)
  · intro x hx
    rcases mem_place.mp hx with rfl | hx
    · exact ht
    · exact h.finite x hx

/-- Another function for a pending task leaves all places as they are. -/
theorem swap (h : Stores q xs) {n : Nat} {t : Task F} (hn : (n, t) ∈ xs) (f : Task F → Task F)
    (hv : ∀ u, (f u).vertex = u.vertex) (hp : ∀ u, (f u).priority = u.priority) :
    Stores { q with entries := q.entries.insert n (f t) }
      (xs.map (changeAt n f)) := by
  have hlive : ∀ m, (q.entries.insert n (f t)).contains m = q.entries.contains m := by
    intro m
    rw [Std.TreeMap.contains_insert]
    by_cases hm : n = m
    · subst hm
      simp [h.contains_eq_true.mpr ⟨t, hn⟩]
    · simp [hm]
  refine ⟨?_, ?_, ?_, h.distinct, h.fresh, ?_⟩
  · intro m u
    simp only [Std.TreeMap.getElem?_insert, Nat.compare_eq_eq, List.mem_map]
    split
    · rename_i hm
      subst hm
      constructor
      · rintro ⟨⟩
        exact ⟨(n, t), hn, by simp [changeAt]⟩
      · rintro ⟨x, hx, hxu⟩
        have hx1 : x.1 = n := by rw [← changeAt_fst n f x, hxu]
        rw [h.eq_of_fst_eq hx hn hx1] at hxu
        simpa [changeAt] using hxu
    · rename_i hm
      rw [h.entry]
      constructor
      · intro hx
        exact ⟨(m, u), hx, if_neg (Ne.symm hm)⟩
      · rintro ⟨x, hx, hxu⟩
        have hx1 : x.1 = m := by rw [← changeAt_fst n f x, hxu]
        rw [changeAt, if_neg (by omega)] at hxu
        exact hxu ▸ hx
  · rw [List.map_map, show Prod.fst ∘ changeAt n f = Prod.fst from funext (changeAt_fst n f)]
    exact h.nodup
  · rw [List.map_map, show keyOf ∘ changeAt n f = keyOf from funext (keyOf_changeAt hv hp n)]
    exact h.lists.congr_live fun k _ => hlive k.seq
  · intro x hx
    obtain ⟨y, hy, rfl⟩ := List.mem_map.mp hx
    have hpri : (changeAt n f y).2.priority = y.2.priority :=
      congrArg Key.priority (keyOf_changeAt hv hp n y)
    rw [hpri]
    exact h.finite y hy

theorem contains_erase {n m : Nat} :
    (q.entries.erase n).contains m = (q.entries.contains m && m != n) := by
  rw [Std.TreeMap.contains_erase, Bool.and_comm]
  congr 1
  rw [Bool.eq_iff_iff, bne_iff_ne, bne_iff_ne, ne_eq, Nat.compare_eq_eq, eq_comm]

theorem entry_erase (h : Stores q xs) {n m : Nat} {u : Task F} :
    (q.entries.erase n)[m]? = some u ↔ (m, u) ∈ xs ∧ m ≠ n := by
  rw [Std.TreeMap.getElem?_erase]
  split
  · rename_i hm
    simp [Nat.compare_eq_eq.mp hm]
  · rename_i hm
    have hm' : m ≠ n := fun he => hm (Nat.compare_eq_eq.mpr he.symm)
    simp [h.entry, hm']

/-- In a priority order a task can be dropped from the entries alone. -/
theorem erase (h : Stores q xs) (hk : q.kind = .priority) (n : Nat) :
    Stores { q with entries := q.entries.erase n } (xs.filter (·.1 != n)) := by
  refine ⟨?_, ?_, ?_, h.distinct, h.fresh, ?_⟩
  · intro m u
    simp [h.entry_erase]
  · exact h.nodup.sublist (List.filter_sublist.map _)
  · have hmap : (xs.filter (·.1 != n)).map keyOf = (xs.map keyOf).filter (·.seq != n) := by
      rw [List.filter_map]
      rfl
    rw [hmap]
    have hl := h.lists
    rw [hk] at hl
    exact hk ▸ hl.forget fun k _ => contains_erase
  · exact fun x hx => h.finite x (List.mem_filter.mp hx).1

end Stores

namespace Holds

variable {q : TaskQueue F} {xs : List (Nat × Task F)}

theorem empty (kind : SchedulerKind) (policy : SchedulePolicy) :
    Holds (.empty kind policy : TaskQueue F) [] where
  entry := by simp [TaskQueue.empty]
  nodup := .nil
  lists := .empty _ kind
  distinct := by cases kind <;> exact .nil
  fresh := by cases kind <;> simp [TaskQueue.empty, Order.empty, Order.keys, Heap.keys]
  finite := by simp
  index := by simp [TaskQueue.empty]

/-- A policy that allows one task a vertex has no more. -/
theorem eq_of_vertex_eq (h : Holds q xs) (hd : q.policy.isDeduplicating = true)
    {x y : Nat × Task F} (hx : x ∈ xs) (hy : y ∈ xs) (hv : x.2.vertex = y.2.vertex) : x = y := by
  have hx' := (h.index y.2.vertex x.1).mpr ⟨hd, x.2, hx, hv⟩
  have hy' := (h.index y.2.vertex y.1).mpr ⟨hd, y.2, hy, rfl⟩
  exact h.eq_of_fst_eq hx hy (by rw [hx', Option.some.injEq] at hy'; exact hy')

theorem nodup_list (h : Holds q xs) : xs.Nodup :=
  h.nodup.of_map _

theorem isSome_byVertex (h : Holds q xs) (hd : q.policy.isDeduplicating = true) (v : VertexId) :
    q.byVertex[v]?.isSome = xs.any (·.2.vertex == v) := by
  rw [Bool.eq_iff_iff, Option.isSome_iff_exists, List.any_eq_true]
  constructor
  · rintro ⟨n, hn⟩
    obtain ⟨-, t, ht, hv⟩ := (h.index v n).mp hn
    exact ⟨(n, t), ht, by simpa using hv⟩
  · rintro ⟨x, hx, hv⟩
    exact ⟨x.1, (h.index v x.1).mpr ⟨hd, x.2, hx, by simpa using hv⟩⟩

theorem clear (q : TaskQueue F) : Holds q.clear [] where
  entry := by simp [TaskQueue.clear]
  nodup := .nil
  lists := .empty _ q.kind
  distinct := by
    show ((Order.empty q.kind).keys.map Key.seq).Nodup
    cases q.kind <;> exact .nil
  fresh := by
    show ∀ k ∈ (Order.empty q.kind).keys, _
    cases q.kind <;> simp [Order.empty, Order.keys, Heap.keys]
  finite := by simp
  index := by simp [TaskQueue.clear]

theorem size_eq (h : Holds q xs) : q.size = xs.length := by
  have hperm : q.entries.toList.Perm xs := by
    refine (List.perm_ext_iff_of_nodup ?_ h.nodup_list).mpr fun x => ?_
    · refine (Std.TreeMap.distinct_keys_toList (t := q.entries)).imp fun hne he => hne ?_
      rw [he]
      exact Nat.compare_eq_eq.mpr rfl
    · rw [Std.TreeMap.mem_toList_iff_getElem?_eq_some, h.entry]
  rw [← hperm.length_eq, Std.TreeMap.length_toList, TaskQueue.size]

/-- A request that is not merged is a new task. -/
theorem push_new (h : Holds q xs) {v : VertexId} (hv : q.byVertex[v]? = none) {t : Task F}
    (htv : t.vertex = v) (ht : t.priority.isFinite = true) :
    Holds (q.insert t) (place rankOf q.kind (q.nextSeq, t) xs) where
  toStores := h.insert ht
  index := by
    intro w n
    have hold : ∀ u, ¬(q.nextSeq, u) ∈ xs := fun u hx => Nat.lt_irrefl _ (h.lt_nextSeq hx)
    simp only [TaskQueue.insert, mem_place, Prod.mk.injEq]
    by_cases hd : q.policy.isDeduplicating = true
    · rw [if_pos hd, Std.TreeMap.getElem?_insert]
      simp only [hd, true_and]
      split
      · rename_i hw
        have hw' : t.vertex = w := Std.LawfulEqCmp.eq_of_compare hw
        constructor
        · rintro ⟨⟩
          exact ⟨t, .inl ⟨rfl, rfl⟩, hw'⟩
        · rintro ⟨u, ⟨rfl, rfl⟩ | hu, huw⟩
          · rfl
          · have : q.byVertex[v]? = some n := (h.index v n).mpr ⟨hd, u, hu, by rw [huw, ← hw', htv]⟩
            simp [hv] at this
      · rename_i hw
        have hw' : t.vertex ≠ w := fun he => hw (by rw [he]; exact Std.ReflCmp.compare_self)
        rw [h.index]
        constructor
        · rintro ⟨-, u, hu, huw⟩
          exact ⟨u, .inr hu, huw⟩
        · rintro ⟨u, ⟨rfl, rfl⟩ | hu, huw⟩
          · exact absurd huw hw'
          · exact ⟨hd, u, hu, huw⟩
    · rw [if_neg hd, h.index]
      simp [hd]

/-- Other functions for the pending task of a vertex. -/
theorem swap (h : Holds q xs) {n : Nat} {t : Task F} (hn : (n, t) ∈ xs) (f : Task F → Task F)
    (hv : ∀ u, (f u).vertex = u.vertex) (hp : ∀ u, (f u).priority = u.priority) :
    Holds { q with entries := q.entries.insert n (f t) } (xs.map (changeAt n f)) where
  toStores := h.toStores.swap hn f hv hp
  index := by
    intro w m
    rw [h.index]
    refine and_congr_right fun _ => ?_
    have hvertex : ∀ x : Nat × Task F, (changeAt n f x).2.vertex = x.2.vertex :=
      fun x => congrArg Key.vertex (keyOf_changeAt hv hp n x)
    constructor
    · rintro ⟨u, hu, rfl⟩
      exact ⟨(changeAt n f (m, u)).2,
        List.mem_map.mpr ⟨(m, u), hu, Prod.ext (changeAt_fst n f (m, u)) rfl⟩, hvertex (m, u)⟩
    · rintro ⟨u, hu, rfl⟩
      obtain ⟨x, hx, hxu⟩ := List.mem_map.mp hu
      refine ⟨x.2, ?_, ?_⟩
      · have hxm : x.1 = m := by rw [← changeAt_fst n f x, hxu]
        rw [← hxm]
        exact hx
      · rw [← hvertex x, hxu]

/-- A task that rises is taken out, and put in its new place under a new number. -/
theorem push_promoted (h : Holds q xs) (hk : q.kind = .priority) {n : Nat} {old t : Task F}
    (hd : q.policy.isDeduplicating = true) (hn : (n, old) ∈ xs) (hv : t.vertex = old.vertex)
    (ht : t.priority.isFinite = true) :
    Holds ({ q with entries := q.entries.erase n }.insert t)
      (place rankOf q.kind (q.nextSeq, t) (xs.filter (·.1 != n))) where
  toStores := (h.toStores.erase hk n).insert ht
  index := by
    intro w m
    have hold : ∀ u, ¬(q.nextSeq, u) ∈ xs := fun u hx => Nat.lt_irrefl _ (h.lt_nextSeq hx)
    simp only [TaskQueue.insert, mem_place, Prod.mk.injEq, hd, if_true, true_and,
      Std.TreeMap.getElem?_insert, List.mem_filter]
    split
    · rename_i hw
      have hw' : t.vertex = w := Std.LawfulEqCmp.eq_of_compare hw
      constructor
      · rintro ⟨⟩
        exact ⟨t, .inl ⟨rfl, rfl⟩, hw'⟩
      · rintro ⟨u, ⟨rfl, rfl⟩ | ⟨hu, hm⟩, huw⟩
        · rfl
        · have he := h.eq_of_vertex_eq hd hu hn (by rw [huw, ← hw', hv])
          exact absurd (Prod.mk.inj he).1 (by simpa using hm)
    · rename_i hw
      have hw' : t.vertex ≠ w := fun he => hw (by rw [he]; exact Std.ReflCmp.compare_self)
      rw [h.index]
      constructor
      · rintro ⟨-, u, hu, huw⟩
        refine ⟨u, .inr ⟨hu, ?_⟩, huw⟩
        have hm : m ≠ n := by
          rintro rfl
          have he := h.eq_of_fst_eq hu hn rfl
          exact hw' (by rw [hv, ← huw, (Prod.mk.inj he).2])
        simpa using hm
      · rintro ⟨u, ⟨rfl, rfl⟩ | ⟨hu, -⟩, huw⟩
        · exact absurd huw hw'
        · exact ⟨hd, u, hu, huw⟩

/-- The index without a number that only one vertex can have. -/
theorem getElem?_unindexed {index : Std.TreeMap VertexId Nat} {v w : VertexId} {n m : Nat}
    (hown : index[w]? = some n → v = w) :
    (if index[v]? = some n then index.erase v else index)[w]? = some m ↔
      index[w]? = some m ∧ m ≠ n := by
  split
  · rename_i hv
    rw [Std.TreeMap.getElem?_erase]
    split
    · rename_i hw
      rw [← Std.LawfulEqCmp.eq_of_compare hw, hv]
      simp [eq_comm]
    · rename_i hw
      refine ⟨fun hm => ⟨hm, ?_⟩, And.left⟩
      rintro rfl
      exact hw (by rw [hown hm]; exact Std.ReflCmp.compare_self)
  · rename_i hv
    refine ⟨fun hm => ⟨hm, ?_⟩, And.left⟩
    rintro rfl
    exact hv (by rw [hown hm]; exact hm)

/-- The first eligible task is taken out. -/
theorem popWhere (h : Holds q xs) (eligible : VertexId → Bool) :
    (q.popWhere eligible).1 = (xs.find? (eligible ·.2.vertex)).map Prod.snd ∧
      Holds (q.popWhere eligible).2 (xs.eraseP (eligible ·.2.vertex)) := by
  obtain ⟨hfound, hlists, hsub⟩ := h.lists.yields h.live_keyOf (eligible ·.vertex)
  have hfind : (xs.map keyOf).find? (eligible ·.vertex) =
      (xs.find? (eligible ·.2.vertex)).map keyOf := List.find?_map
  have herase : (xs.map keyOf).eraseP (eligible ·.vertex) =
      (xs.eraseP (eligible ·.2.vertex)).map keyOf := List.eraseP_map
  rw [hfind] at hfound hsub
  rw [herase] at hlists
  obtain ⟨l, hl, hsub⟩ := hsub
  have hdistinct := ((hl.map Key.seq).nodup_iff).mp (h.distinct.sublist (hsub.map _))
  have hmem : ∀ k ∈ (q.order.takeFirst (q.entries.contains ·.seq) (eligible ·.vertex)).2.keys,
      k ∈ q.order.keys :=
    fun k hk => hsub.subset (hl.mem_iff.mpr (List.mem_append_right _ hk))
  simp only [TaskQueue.popWhere, hfound]
  cases hx : xs.find? (eligible ·.2.vertex) with
  | none =>
    rw [List.eraseP_of_forall_not (List.find?_eq_none.mp hx)] at hlists ⊢
    rw [hx] at hdistinct
    exact ⟨rfl, ⟨⟨h.entry, h.nodup, hlists, hdistinct, fun k hk => h.fresh k (hmem k hk), h.finite⟩,
      h.index⟩⟩
  | some x =>
    obtain ⟨n, t⟩ := x
    have hn : (n, t) ∈ xs := List.mem_of_find?_eq_some hx
    have hrest : ∀ y, y ∈ xs.eraseP (eligible ·.2.vertex) ↔ y ∈ xs ∧ y.1 ≠ n := by
      intro y
      rw [mem_eraseP_of_find? h.nodup_list hx]
      refine and_congr_right fun hy => not_congr ⟨fun he => by rw [he], h.eq_of_fst_eq hy hn⟩
    rw [hx] at hdistinct
    simp only [Option.map_some, Option.toList_some, List.singleton_append, List.map_cons,
      List.nodup_cons, keyOf] at hdistinct
    simp only [Option.map_some, keyOf, TaskQueue.take, (h.entry n t).mpr hn, true_and]
    refine ⟨⟨?_, ?_, ?_, hdistinct.2, ?_, ?_⟩, ?_⟩
    · intro m u
      rw [h.entry_erase, hrest]
    · exact h.nodup.sublist (List.eraseP_sublist.map _)
    · refine hlists.congr_live fun k hk => ?_
      have hkn : k.seq ≠ n := fun he => hdistinct.1 (List.mem_map.mpr ⟨k, hk, he⟩)
      show (q.entries.erase n).contains k.seq = q.entries.contains k.seq
      rw [Stores.contains_erase, bne_iff_ne.mpr hkn, Bool.and_true]
    · exact fun k hk => h.fresh k (hmem k hk)
    · exact fun y hy => h.finite y ((hrest y).mp hy).1
    · intro w m
      have hown : q.byVertex[w]? = some n → t.vertex = w := by
        intro hw
        obtain ⟨-, u, hu, huw⟩ := (h.index w n).mp hw
        rw [← huw, (Prod.mk.inj (h.eq_of_fst_eq hn hu rfl)).2]
      rw [getElem?_unindexed hown, h.index]
      constructor
      · rintro ⟨⟨hd, u, hu, huw⟩, hm⟩
        exact ⟨hd, u, (hrest _).mpr ⟨hu, hm⟩, huw⟩
      · rintro ⟨hd, u, hu, huw⟩
        obtain ⟨hu, hm⟩ := (hrest _).mp hu
        exact ⟨⟨hd, u, hu, huw⟩, hm⟩

/-- Popping everything reads the list back. -/
theorem toList (h : Holds q xs) : q.toList = xs.map Prod.snd := by
  have hdrain : ∀ n, ∀ {q : TaskQueue F} {xs : List (Nat × Task F)}, Holds q xs → xs.length = n →
      q.drain n = xs.map Prod.snd := by
    intro n
    induction n with
    | zero =>
      intro q xs _ hn
      rw [List.eq_nil_of_length_eq_zero hn]
      rfl
    | succ n ih =>
      intro q xs h hn
      obtain ⟨x, xs, rfl⟩ := List.exists_cons_of_length_eq_add_one hn
      obtain ⟨hpop, hrest⟩ := h.popWhere fun _ => true
      simp only [List.find?_cons_of_pos, List.eraseP_cons_of_pos, Option.map_some] at hpop hrest
      rcases hp : q.popWhere fun _ => true with ⟨found, rest⟩
      rw [hp] at hpop hrest
      subst hpop
      simp [drain, TaskQueue.pop, hp, ih hrest (by simpa using hn)]
  exact hdrain q.size h h.size_eq.symm

end Holds

end TaskQueue

end VertexEngine
