import Mathlib.Data.List.TakeWhile
import VertexEngine.Proofs.Queue.Heap
import VertexEngine.Queue.Pending

/-!
# The live keys of an order

`Order.Lists live kind o ks` says that an order of this kind holds the live keys `ks`, in the
sequence in which their tasks go.  A first-in first-out order holds nothing else; a priority order
can hold stale keys too, and only its heap property says which of the live ones is the first.

`Lists.insert` and `Lists.takeFirst` say what the two operations of an order do to that list.  Both
are said with two functions on lists, `insertBehind` and `place`, that know nothing of keys.
-/

namespace VertexEngine

/-! ## Lists in order of rank -/

section Lists

variable {α β : Type}

/-- The list with `a` behind all elements whose rank is not lower. -/
def insertBehind (rank : α → Int) (a : α) (xs : List α) : List α :=
  let notLower (x : α) : Bool := rank a ≤ rank x
  xs.takeWhile notLower ++ a :: xs.dropWhile notLower

/-- The list with `a` in its place: at the end, or by rank. -/
def place (rank : α → Int) : SchedulerKind → α → List α → List α
  | .fifo, a, xs => xs ++ [a]
  | .priority, a, xs => insertBehind rank a xs

theorem perm_place (rank : α → Int) (kind : SchedulerKind) (a : α) (xs : List α) :
    (place rank kind a xs).Perm (a :: xs) := by
  cases kind with
  | fifo => exact List.perm_append_singleton a xs
  | priority =>
    refine List.perm_middle.trans (.cons a ?_)
    rw [List.takeWhile_append_dropWhile]

theorem mem_place {rank : α → Int} {kind : SchedulerKind} {a x : α} {xs : List α} :
    x ∈ place rank kind a xs ↔ x = a ∨ x ∈ xs :=
  (perm_place rank kind a xs).mem_iff.trans List.mem_cons

theorem map_place (f : α → β) (rank : β → Int) (kind : SchedulerKind) (a : α) (xs : List α) :
    (place (rank ∘ f) kind a xs).map f = place rank kind (f a) (xs.map f) := by
  cases kind with
  | fifo => simp [place]
  | priority =>
    simp only [place, insertBehind, List.map_append, List.map_cons, List.takeWhile_map,
      List.dropWhile_map]
    rfl

theorem find?_split {p : α → Bool} {xs : List α} {x : α} (h : xs.find? p = some x) :
    ∃ as bs, xs = as ++ x :: bs ∧ p x = true ∧ (∀ a ∈ as, p a = false) ∧
      xs.eraseP p = as ++ bs := by
  obtain ⟨hx, as, bs, rfl, has⟩ := List.find?_eq_some_iff_append.mp h
  have has' : ∀ a ∈ as, ¬p a = true := fun a ha => by simpa using has a ha
  refine ⟨as, bs, rfl, hx, fun a ha => by simpa using has a ha, ?_⟩
  rw [List.eraseP_append_right _ has', List.eraseP_cons_of_pos hx]

/-- What is left of a list without repetitions when the first element with a property is taken. -/
theorem mem_eraseP_of_find? {p : α → Bool} {xs : List α} {x y : α} (hn : xs.Nodup)
    (h : xs.find? p = some x) : y ∈ xs.eraseP p ↔ y ∈ xs ∧ y ≠ x := by
  obtain ⟨as, bs, rfl, -, -, he⟩ := find?_split h
  rw [he]
  have hx : x ∉ as ++ bs := (List.nodup_cons.mp ((List.perm_middle.nodup_iff).mp hn)).1
  constructor
  · intro hy
    refine ⟨?_, fun hyx => hx (hyx ▸ hy)⟩
    exact List.perm_middle.mem_iff.mpr (List.mem_cons_of_mem x hy)
  · rintro ⟨hy, hyx⟩
    exact (List.mem_cons.mp (List.perm_middle.mem_iff.mp hy)).resolve_left hyx

theorem perm_cons_eraseP {p : α → Bool} {xs : List α} {x : α} (h : xs.find? p = some x) :
    xs.Perm (x :: xs.eraseP p) := by
  obtain ⟨as, bs, rfl, -, -, he⟩ := find?_split h
  rw [he]
  exact List.perm_middle

/-- In a sorted list the first element with a property is the one that no other one precedes. -/
theorem find?_eq_some_of_sorted {lt : α → α → Bool} {p : α → Bool} {xs : List α} {x : α}
    (hs : xs.Pairwise (lt · · = true)) (hx : x ∈ xs) (hpx : p x = true)
    (hfirst : ∀ y ∈ xs, p y = true → lt y x = false) : xs.find? p = some x := by
  cases h : xs.find? p with
  | none => exact absurd hpx (by simpa using List.find?_eq_none.mp h x hx)
  | some y =>
    obtain ⟨as, bs, rfl, hy, has, -⟩ := find?_split h
    rcases List.mem_append.mp hx with hx | hx
    · simp [has x hx] at hpx
    · rcases List.mem_cons.mp hx with rfl | hx
      · rfl
      · have hlt : lt y x = true :=
          (List.pairwise_cons.mp (List.pairwise_append.mp hs).2.1).1 x hx
        simp [hfirst y (List.mem_append_right _ List.mem_cons_self) hy] at hlt

/-- What follows the first elements with a downward closed property has it not. -/
theorem not_of_mem_dropWhile {p : α → Bool} {lt : α → α → Prop} {xs : List α}
    (hs : xs.Pairwise lt) (hp : ∀ x y, lt x y → p y = true → p x = true) :
    ∀ x ∈ xs.dropWhile p, p x = false := by
  induction xs with
  | nil => simp
  | cons a xs ih =>
    rw [List.pairwise_cons] at hs
    rw [List.dropWhile_cons]
    split
    · exact ih hs.2
    · rename_i ha
      intro x hx
      rcases List.mem_cons.mp hx with rfl | hx
      · simpa using ha
      · cases hpx : p x with
        | false => rfl
        | true => exact absurd (hp a x (hs.1 x hx) hpx) ha

/-- In a list that goes down in rank there are those of no lower rank first, and the others
behind. -/
theorem insertBehind_split {rank : α → Int} {xs : List α}
    (hs : xs.Pairwise fun x y => rank y ≤ rank x) (a : α) :
    ∃ kept overtaken, xs = kept ++ overtaken ∧
      insertBehind rank a xs = kept ++ a :: overtaken ∧
      (∀ x ∈ kept, rank a ≤ rank x) ∧ ∀ x ∈ overtaken, rank x < rank a := by
  refine ⟨_, _, List.takeWhile_append_dropWhile.symm, rfl, fun x hx => ?_, fun x hx => ?_⟩
  · simpa using List.mem_takeWhile_imp hx
  · have hlower := not_of_mem_dropWhile hs (fun y z hyz hz => ?_) x hx
    · simpa using hlower
    · simp only [decide_eq_true_iff] at hz ⊢
      omega

theorem insertBehind_append {rank : α → Int} {a : α} {ys : List α}
    (h : ∀ y ∈ ys, rank y < rank a) (xs : List α) :
    insertBehind rank a (xs ++ ys) = insertBehind rank a xs ++ ys := by
  induction xs with
  | nil =>
    cases ys with
    | nil => rfl
    | cons y ys =>
      have hy : ¬rank a ≤ rank y := by
        have := h y List.mem_cons_self
        omega
      simp [insertBehind, hy]
  | cons x xs ih =>
    by_cases hx : rank a ≤ rank x
    · simpa [insertBehind, hx] using ih
    · simp [insertBehind, hx]

end Lists

/-! ## Orders -/

namespace Order

theorem keys_insert (o : Order) (k : Key) : (o.insert k).keys.Perm (k :: o.keys) := by
  cases o with
  | fifo front back =>
    simpa [insert, keys] using List.perm_append_singleton k (front ++ back.reverse)
  | priority heap => exact Heap.keys_insert heap k

/-- An order of this kind holds the live keys `ks`, in the sequence in which their tasks go. -/
inductive Lists (live : Key → Bool) : SchedulerKind → Order → List Key → Prop
  | fifo {front back ks : List Key} (h : front ++ back.reverse = ks) :
    Lists live .fifo (.fifo front back) ks
  | priority {heap : Heap} {ks : List Key} (ho : heap.Ordered)
    (hp : (heap.keys.filter live).Perm ks) (hs : ks.Pairwise (·.before · = true)) :
    Lists live .priority (.priority heap) ks

namespace Lists

variable {live : Key → Bool} {kind : SchedulerKind} {o : Order} {ks : List Key}

theorem empty (live : Key → Bool) (kind : SchedulerKind) : Lists live kind (.empty kind) [] := by
  cases kind with
  | fifo => exact .fifo rfl
  | priority => exact .priority trivial (.refl _) .nil

theorem subset (h : Lists live kind o ks) : ∀ k ∈ ks, k ∈ o.keys := by
  intro k hk
  cases h with
  | fifo h =>
    subst h
    exact hk
  | priority _ hp _ => exact (List.mem_filter.mp (hp.mem_iff.mpr hk)).1

/-- The tasks of a priority order go by their keys. -/
theorem pairwise_before (h : Lists live .priority o ks) : ks.Pairwise (·.before · = true) := by
  cases h with
  | priority _ _ hs => exact hs

/-- Only the keys that are there have to be live in the same way. -/
theorem congr_live {live' : Key → Bool} (h : Lists live kind o ks)
    (hl : ∀ k ∈ o.keys, live' k = live k) : Lists live' kind o ks := by
  cases h with
  | fifo h => exact .fifo h
  | @priority heap _ ho hp hs =>
    have hf : heap.keys.filter live' = heap.keys.filter live := List.filter_congr hl
    exact .priority ho (hf ▸ hp) hs

/-- A key that is younger than all others goes behind those whose priority is not lower. -/
theorem insert (h : Lists live kind o ks) {k : Key} (hk : live k = true)
    (hseq : ∀ x ∈ ks, x.seq < k.seq) :
    Lists live kind (o.insert k) (place (fun x => Priority.rank x.priority) kind k ks) := by
  cases h with
  | fifo h => exact .fifo (by simp [place, ← h])
  | @priority heap _ ho hp hs =>
    refine .priority (Heap.ordered_insert ho k) ?_ ?_
    · refine ((Heap.keys_insert heap k).filter live).trans ?_
      rw [List.filter_cons_of_pos hk]
      exact (hp.cons k).trans (perm_place _ .priority k ks).symm
    · simp only [place, insertBehind]
      generalize hnot :
        (fun x : Key => decide (Priority.rank k.priority ≤ Priority.rank x.priority))
        = notLower
      have hup : ∀ x ∈ ks.takeWhile notLower, x.before k = true := by
        intro x hx
        have hx1 : notLower x = true := List.mem_takeWhile_imp hx
        have hx2 := hseq x ((List.takeWhile_sublist _).subset hx)
        rw [← hnot, decide_eq_true_iff] at hx1
        rw [Key.before_iff]
        omega
      have hdown : ∀ x ∈ ks.dropWhile notLower, k.before x = true := by
        intro x hx
        have hx1 : notLower x = false := by
          refine not_of_mem_dropWhile hs (fun a b hab hb => ?_) x hx
          rw [← hnot, decide_eq_true_iff] at hb ⊢
          rw [Key.before_iff] at hab
          omega
        rw [← hnot, decide_eq_false_iff_not] at hx1
        rw [Key.before_iff]
        omega
      rw [List.pairwise_append, List.pairwise_cons]
      refine ⟨hs.sublist (List.takeWhile_sublist _),
        ⟨hdown, hs.sublist (List.dropWhile_sublist _)⟩, ?_⟩
      intro a ha b hb
      rcases List.mem_cons.mp hb with rfl | hb
      · exact hup a ha
      · rw [← List.takeWhile_append_dropWhile (p := notLower) (l := ks),
          List.pairwise_append] at hs
        exact hs.2.2 a ha b hb

/-- A key of a priority order that is no longer live is out of the list, though it stays behind. -/
theorem forget (h : Lists live .priority o ks) {n : Nat} {live' : Key → Bool}
    (hl : ∀ k ∈ o.keys, live' k = (live k && k.seq != n)) :
    Lists live' .priority o (ks.filter (·.seq != n)) := by
  cases h with
  | @priority heap _ ho hp hs =>
    refine .priority ho ?_ (hs.filter _)
    have hf : heap.keys.filter live' = heap.keys.filter _ := List.filter_congr hl
    rw [hf]
    simpa [List.filter_filter, Bool.and_comm] using hp.filter (·.seq != n)

theorem takeFirstOf_eq {eligible : Key → Bool} (hl : ∀ k ∈ ks, live k = true) :
    takeFirstOf live eligible ks = (ks.find? eligible, ks.eraseP eligible) := by
  induction ks with
  | nil => rfl
  | cons k ks ih =>
    have hk : live k = true := hl k List.mem_cons_self
    rw [takeFirstOf, if_neg (by simp [hk])]
    split
    · rename_i he
      simp [he]
    · rename_i he
      rw [ih fun x hx => hl x (List.mem_cons_of_mem _ hx)]
      simp [he]

/-- An order answers with the first eligible key of its list, and the others stay in their
sequence. -/
structure Yields (live : Key → Bool) (kind : SchedulerKind) (o : Order) (ks : List Key)
    (eligible : Key → Bool) : Prop where
  found : (o.takeFirst live eligible).1 = ks.find? eligible
  lists : Lists live kind (o.takeFirst live eligible).2 (ks.eraseP eligible)
  subperm : ((ks.find? eligible).toList ++ (o.takeFirst live eligible).2.keys).Subperm o.keys

theorem yields_fifo {front back : List Key} (hl : ∀ k ∈ front ++ back.reverse, live k = true)
    (eligible : Key → Bool) :
    Yields live .fifo (.fifo front back) (front ++ back.reverse) eligible := by
  have hf : takeFirstOf live eligible front = _ :=
    takeFirstOf_eq fun k hk => hl k (List.mem_append_left _ hk)
  have hb : takeFirstOf live eligible back.reverse = _ :=
    takeFirstOf_eq fun k hk => hl k (List.mem_append_right _ hk)
  have hsub : ∀ {k}, (front ++ back.reverse).find? eligible = some k →
      (k :: (front ++ back.reverse).eraseP eligible).Subperm (front ++ back.reverse) :=
    fun hk => (perm_cons_eraseP hk).symm.subperm
  simp only [List.find?_append, List.eraseP_append] at hsub
  cases hfind : front.find? eligible with
  | some k =>
    have hany : front.any eligible = true :=
      List.any_eq_true.mpr ⟨k, List.mem_of_find?_eq_some hfind, List.find?_some hfind⟩
    constructor <;> simp only [Order.takeFirst, hf, List.find?_append, List.eraseP_append, hfind,
      hany, if_true, Option.some_or] at hsub ⊢
    · exact .fifo rfl
    · exact hsub rfl
  | none =>
    have hall : ∀ k ∈ front, ¬eligible k = true := List.find?_eq_none.mp hfind
    have hany : front.any eligible = false := by simpa using hall
    constructor <;> simp only [Order.takeFirst, hf, List.find?_append, List.eraseP_append, hfind,
      hany, Bool.false_eq_true, if_false, Option.none_or, hb,
      List.eraseP_of_forall_not hall] at hsub ⊢
    · exact .fifo (by simp)
    · cases hfind' : back.reverse.find? eligible with
      | some k => simpa [Order.keys] using hsub hfind'
      | none =>
        rw [List.eraseP_of_forall_not (List.find?_eq_none.mp hfind')]
        simpa [Order.keys] using List.Subperm.refl (front ++ back.reverse)

theorem yields_priority {heap : Heap} (ho : heap.Ordered) (hp : (heap.keys.filter live).Perm ks)
    (hs : ks.Pairwise (·.before · = true)) (eligible : Key → Bool) :
    Yields live .priority (.priority heap) ks eligible := by
  have hleaves := Heap.takeFirst_leaves live eligible ho
  cases hfound : (heap.takeFirst live eligible).1 with
  | none =>
    have hnone : ∀ k ∈ ks, ¬eligible k = true := by
      intro k hk
      obtain ⟨hk1, hk2⟩ := List.mem_filter.mp (hp.mem_iff.mpr hk)
      simp [Heap.takeFirst_none live eligible hfound k hk1 hk2]
    have hfind := List.find?_eq_none.mpr hnone
    rw [hfound] at hleaves
    refine ⟨hfound.trans hfind.symm, ?_, ?_⟩
    · rw [List.eraseP_of_forall_not hnone]
      exact .priority hleaves.ordered (hleaves.live_perm.trans hp) hs
    · rw [hfind]
      exact hleaves.subperm
  | some k =>
    obtain ⟨hk1, hk2, hk3, hfirst⟩ := Heap.takeFirst_some live eligible ho hfound
    have hfind : ks.find? eligible = some k := by
      refine find?_eq_some_of_sorted hs (hp.mem_iff.mp (List.mem_filter.mpr ⟨hk1, hk2⟩)) hk3 ?_
      intro y hy
      obtain ⟨hy1, hy2⟩ := List.mem_filter.mp (hp.mem_iff.mpr hy)
      exact hfirst y hy1 hy2
    rw [hfound] at hleaves
    refine ⟨hfound.trans hfind.symm, ?_, ?_⟩
    · refine .priority hleaves.ordered ?_ (hs.sublist (List.eraseP_sublist))
      have hlive := hleaves.live_perm.trans (hp.trans (perm_cons_eraseP hfind))
      simp only [Option.toList_some, List.singleton_append, List.filter_cons_of_pos hk2] at hlive
      exact hlive.cons_inv
    · rw [hfind]
      exact hleaves.subperm

theorem yields (h : Lists live kind o ks) (hl : ∀ k ∈ ks, live k = true)
    (eligible : Key → Bool) : Yields live kind o ks eligible := by
  cases h with
  | fifo h =>
    subst h
    exact yields_fifo hl eligible
  | priority ho hp hs => exact yields_priority ho hp hs eligible

end Lists

end Order

end VertexEngine
