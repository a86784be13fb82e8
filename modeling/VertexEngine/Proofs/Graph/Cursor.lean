import Mathlib.Data.List.Forall2
import VertexEngine.Graph.Basic

/-!
# Cursors and their copies

A cursor over the edges at a vertex is a place in a list of edges, and a copy is another place.
Whatever is done with a cursor and with copies of it, each of them goes on from where it stands, and
knows how many edges are still to come.

* `iterate` is what can be done with a row of iterators of any kind: ask one of them for its next
  item, or copy it.
* `iterate_related` says that iterators which step alike cannot be told apart by this.
* `EdgeCursor.Iterates` says that a cursor is the first place in a list of edges.
-/

namespace VertexEngine

/-! ## Rows of iterators -/

/-- What can be done with a row of iterators. -/
inductive Iteration where
  /-- One of them is asked for its next item. -/
  | next (index : Nat)
  /-- A copy of one of them joins the row. -/
  | copy (index : Nat)

section

variable {σ τ α : Type} {next? : σ → Option (α × σ)} {next'? : τ → Option (α × τ)}

/-- The item that comes out, and the row afterwards. -/
def iterate (next? : σ → Option (α × σ)) (row : List σ) : Iteration → Option α × List σ
  | .next i =>
    match row[i]?.bind next? with
    | some (item, s) => (some item, row.set i s)
    | none => (none, row)
  | .copy i => (none, row ++ row[i]?.toList)

/-- The items that come out one after the other, and the row afterwards. -/
def iterateAll (next? : σ → Option (α × σ)) (row : List σ) :
    List Iteration → List (Option α) × List σ
  | [] => ([], row)
  | it :: rest =>
    let (item, row) := iterate next? row it
    let (items, row) := iterateAll next? row rest
    (item :: items, row)

/-- The items of two steps are the same, and what follows is related. -/
def StepsAlike (R : σ → τ → Prop) : Option (α × σ) → Option (α × τ) → Prop
  | some (a, s), some (b, t) => a = b ∧ R s t
  | none, none => True
  | _, _ => False

variable {R : σ → τ → Prop} {row : List σ} {row' : List τ}

theorem getElem?_related (h : List.Forall₂ R row row') (i : Nat) :
    (∃ s t, row[i]? = some s ∧ row'[i]? = some t ∧ R s t) ∨ row[i]? = none ∧ row'[i]? = none := by
  induction h generalizing i with
  | nil => exact .inr ⟨rfl, rfl⟩
  | cons hst _ ih =>
    cases i with
    | zero => exact .inl ⟨_, _, rfl, rfl, hst⟩
    | succ i => exact ih i

theorem set_related (h : List.Forall₂ R row row') (i : Nat) {s : σ} {t : τ} (hst : R s t) :
    List.Forall₂ R (row.set i s) (row'.set i t) := by
  induction h generalizing i with
  | nil => exact .nil
  | cons hst' hrest ih =>
    cases i with
    | zero => exact .cons hst hrest
    | succ i => exact .cons hst' (ih i)

theorem iterate_related (hstep : ∀ s t, R s t → StepsAlike R (next? s) (next'? t))
    (h : List.Forall₂ R row row') (it : Iteration) :
    (iterate next? row it).1 = (iterate next'? row' it).1 ∧
      List.Forall₂ R (iterate next? row it).2 (iterate next'? row' it).2 := by
  cases it with
  | next i =>
    rcases getElem?_related h i with ⟨s, t, hs, ht, hst⟩ | ⟨hs, ht⟩
    · have hnext := hstep s t hst
      simp only [iterate, hs, ht, Option.bind_some]
      cases hns : next? s with
      | none =>
        cases hnt : next'? t with
        | none => exact ⟨rfl, h⟩
        | some y =>
          rw [hns, hnt] at hnext
          exact hnext.elim
      | some x =>
        cases hnt : next'? t with
        | none =>
          rw [hns, hnt] at hnext
          exact hnext.elim
        | some y =>
          rw [hns, hnt] at hnext
          obtain ⟨hitem, hrest⟩ := hnext
          exact ⟨congrArg some hitem, set_related h i hrest⟩
    · simp only [iterate, hs, ht, Option.bind_none]
      exact ⟨trivial, h⟩
  | copy i =>
    refine ⟨rfl, ?_⟩
    rcases getElem?_related h i with ⟨s, t, hs, ht, hst⟩ | ⟨hs, ht⟩
    · simp only [iterate, hs, ht]
      exact List.rel_append h (.cons hst .nil)
    · simp only [iterate, hs, ht]
      exact List.rel_append h .nil

/-- Iterators that step alike give the same items, whatever is done with them and their copies. -/
theorem iterateAll_related (hstep : ∀ s t, R s t → StepsAlike R (next? s) (next'? t))
    (h : List.Forall₂ R row row') (its : List Iteration) :
    (iterateAll next? row its).1 = (iterateAll next'? row' its).1 ∧
      List.Forall₂ R (iterateAll next? row its).2 (iterateAll next'? row' its).2 := by
  induction its generalizing row row' with
  | nil => exact ⟨rfl, h⟩
  | cons it rest ih =>
    obtain ⟨hitem, hrow⟩ := iterate_related hstep h it
    obtain ⟨hitems, hrows⟩ := ih hrow
    exact ⟨List.cons_eq_cons.mpr ⟨hitem, hitems⟩, hrows⟩

end

/-! ## Cursors as places -/

/-- The item at a place in a list, and the place behind it. -/
def nextAt? {α : Type} (items : List α) (place : Nat) : Option (α × Nat) :=
  items[place]?.map (·, place + 1)

namespace EdgeCursor

variable {E : Type}

/-- The cursor stands at a place in a list of edges: the edges from there on are still to come, and
none of their numbers is out of range. -/
structure StandsAt (es : List (Edge E)) (c : EdgeCursor E) (place : Nat) : Prop where
  place_le : place ≤ es.length
  inRange : ∀ id ∈ c.rest, id.toNat < c.edges.size
  toList : c.toList = es.drop place
  remaining : c.remaining = es.length - place

/-- Whatever is done with a cursor and its copies, they are places in the list of edges, the cursor
itself the first one. -/
def Iterates (c : EdgeCursor E) (es : List (Edge E)) : Prop :=
  ∀ its : List Iteration,
    (iterateAll next? [c] its).1 = (iterateAll (nextAt? es) [0] its).1 ∧
      List.Forall₂ (StandsAt es) (iterateAll next? [c] its).2 (iterateAll (nextAt? es) [0] its).2

variable {c : EdgeCursor E} {es : List (Edge E)}

theorem length_toList (h : ∀ id ∈ c.rest, id.toNat < c.edges.size) :
    c.toList.length = c.remaining := by
  obtain ⟨edges, rest⟩ := c
  induction rest with
  | nil => rfl
  | cons id rest ih =>
    have hget := Array.getElem?_eq_getElem (h id List.mem_cons_self)
    have hrest := ih fun id' hid' => h id' (List.mem_cons_of_mem _ hid')
    simp only [toList, List.filterMap_cons, hget, List.length_cons]
    exact congrArg Nat.succ hrest

theorem standsAt_zero (h : ∀ id ∈ c.rest, id.toNat < c.edges.size) (hes : c.toList = es) :
    StandsAt es c 0 := by
  refine ⟨Nat.zero_le _, h, hes, ?_⟩
  rw [← length_toList h, hes, Nat.sub_zero]

/-- A cursor gives the edge at its place, and moves to the next one. -/
theorem StandsAt.next? {place : Nat} (h : StandsAt es c place) :
    StepsAlike (StandsAt es) c.next? (nextAt? es place) := by
  obtain ⟨hle, hin, hlist, hremaining⟩ := h
  obtain ⟨edges, rest⟩ := c
  cases rest with
  | nil =>
    have hend : es[place]? = none := by
      rw [List.getElem?_eq_none_iff]
      simp only [EdgeCursor.remaining, List.length_nil] at hremaining
      omega
    simp only [EdgeCursor.next?, nextAt?, hend]
    trivial
  | cons id rest =>
    have hid : id.toNat < edges.size := hin id List.mem_cons_self
    have hget := Array.getElem?_eq_getElem hid
    have hcons : edges[id.toNat] :: EdgeCursor.toList ⟨edges, rest⟩ = es.drop place := by
      rw [← hlist]
      simp only [EdgeCursor.toList, List.filterMap_cons, hget]
    simp only [EdgeCursor.remaining, List.length_cons] at hremaining
    have hlt : place < es.length := by omega
    rw [List.drop_eq_getElem_cons hlt] at hcons
    obtain ⟨hitem, hrest⟩ := List.cons_eq_cons.mp hcons
    simp only [EdgeCursor.next?, nextAt?, hget, List.getElem?_eq_getElem hlt, Option.map_some]
    refine ⟨hitem, hlt, fun id' hid' => hin id' (List.mem_cons_of_mem _ hid'), hrest, ?_⟩
    simp only [EdgeCursor.remaining]
    omega

theorem Iterates.toList_eq (h : c.Iterates es) : c.toList = es := by
  cases (h []).2 with
  | cons hs _ => exact hs.toList

theorem iterates (h : ∀ id ∈ c.rest, id.toNat < c.edges.size) (hes : c.toList = es) :
    c.Iterates es :=
  fun its => iterateAll_related (fun _ _ hs => hs.next?) (.cons (standsAt_zero h hes) .nil) its

end EdgeCursor

end VertexEngine
