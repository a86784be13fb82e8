import Mathlib.Data.List.Perm.Basic
import Mathlib.Data.List.Perm.Subperm
import VertexEngine.Queue.Heap

/-!
# The first key of a heap

A heap answers with its first live and eligible key, and what it keeps are the other live keys.
There are three groups.

* The order of keys.  `Key.before` is a strict weak order, and two keys with different numbers are
  always ordered.
* The heap order.  `Heap.Ordered` says that no key below a node goes before the key of the node;
  `ordered_merge` carries it through a merge, and `keys_merge` says that a merge loses no key.
* The search.  `takeFirst_none` and `takeFirst_some` are all that later modules know of
  `Heap.takeFirst`.
-/

namespace VertexEngine

/-! ## The order of keys -/

namespace Key

theorem before_iff {a b : Key} :
    a.before b = true ↔ Priority.rank b.priority < Priority.rank a.priority ∨
      Priority.rank a.priority = Priority.rank b.priority ∧ a.seq < b.seq := by
  simp [before]

/-- A key that does not go behind a second one goes before whatever the second one goes before. -/
theorem before_of_not_before {a b c : Key} (h1 : b.before a = false) (h2 : b.before c = true) :
    a.before c = true := by
  have h1' : ¬b.before a = true := by simp [h1]
  rw [before_iff] at h1' h2 ⊢
  omega

theorem not_before_trans {a b c : Key} (h1 : a.before b = false) (h2 : b.before c = false) :
    a.before c = false := by
  cases h : a.before c with
  | false => rfl
  | true =>
    rw [before_of_not_before h1 h] at h2
    simp at h2

theorem before_irrefl (a : Key) : a.before a = false := by
  simp [before]

theorem not_before_of_before {a b : Key} (h : a.before b = true) : b.before a = false := by
  cases h' : b.before a with
  | false => rfl
  | true =>
    rw [before_iff] at h h'
    omega

end Key

namespace Heap

/-! ## The heap order -/

/-- No key below a node goes before the key of the node. -/
def Ordered : Heap → Prop
  | nil => True
  | node _ k l r => (∀ x ∈ l.keys ++ r.keys, x.before k = false) ∧ l.Ordered ∧ r.Ordered

theorem keys_join (k : Key) (a b : Heap) : (join k a b).keys.Perm (k :: (a.keys ++ b.keys)) := by
  unfold join
  split
  · exact .refl _
  · exact List.Perm.cons _ List.perm_append_comm

theorem ordered_join {k : Key} {a b : Heap} (ha : a.Ordered) (hb : b.Ordered)
    (hk : ∀ x ∈ a.keys ++ b.keys, x.before k = false) : (join k a b).Ordered := by
  unfold join
  split
  · exact ⟨hk, ha, hb⟩
  · exact ⟨fun x hx => hk x (List.perm_append_comm.mem_iff.mp hx), hb, ha⟩

theorem keys_mergeNode {n : Nat} {k : Key} {l r : Heap} {f : Heap → Heap}
    (hf : ∀ b, (f b).keys.Perm (r.keys ++ b.keys)) (b : Heap) :
    (mergeNode n k l r f b).keys.Perm ((node n k l r).keys ++ b.keys) := by
  induction b with
  | nil => simp [mergeNode, keys]
  | node m k' l' r' _ ih =>
    unfold mergeNode
    split
    · refine (keys_join _ _ _).trans ?_
      simp only [keys, List.cons_append, List.append_assoc]
      exact .cons _ ((hf _).append_left _)
    · refine (keys_join _ _ _).trans (((ih.append_left l'.keys).cons k').trans ?_)
      exact ((List.perm_append_comm_assoc _ _ _).cons k').trans List.perm_middle.symm

/-- A merge holds the keys of both heaps. -/
theorem keys_merge (a b : Heap) : (a.merge b).keys.Perm (a.keys ++ b.keys) := by
  induction a generalizing b with
  | nil => simp [merge, keys]
  | node n k l r _ ih => exact keys_mergeNode ih b

theorem ordered_mergeNode {n : Nat} {k : Key} {l r : Heap} {f : Heap → Heap}
    (hkeys : ∀ b, (f b).keys.Perm (r.keys ++ b.keys)) (hord : ∀ b, b.Ordered → (f b).Ordered)
    (ha : (node n k l r).Ordered) (b : Heap) (hb : b.Ordered) :
    (mergeNode n k l r f b).Ordered := by
  obtain ⟨hk, hl, _⟩ := id ha
  induction b with
  | nil => exact ha
  | node m k' l' r' _ ih =>
    obtain ⟨hk', hl', hr'⟩ := id hb
    unfold mergeNode
    split
    · rename_i hlt
      refine ordered_join hl (hord _ hb) fun x hx => ?_
      rw [List.mem_append, (hkeys _).mem_iff, ← List.mem_append, ← List.append_assoc,
        List.mem_append] at hx
      rcases hx with hx | hx
      · exact hk x hx
      · have hkk' : k'.before k = false := Key.not_before_of_before hlt
        rcases List.mem_cons.mp hx with rfl | hx
        · exact hkk'
        · exact Key.not_before_trans (hk' x hx) hkk'
    · rename_i hlt
      refine ordered_join hl' (ih hr') fun x hx => ?_
      rw [List.mem_append, (keys_mergeNode hkeys r').mem_iff, List.mem_append] at hx
      have hkk' : k.before k' = false := by simpa using hlt
      rcases hx with hx | hx | hx
      · exact hk' x (List.mem_append_left _ hx)
      · rcases List.mem_cons.mp hx with rfl | hx
        · exact hkk'
        · exact Key.not_before_trans (hk x hx) hkk'
      · exact hk' x (List.mem_append_right _ hx)

theorem ordered_merge {a b : Heap} (ha : a.Ordered) (hb : b.Ordered) : (a.merge b).Ordered := by
  induction a generalizing b with
  | nil => exact hb
  | node n k l r _ ih =>
    exact ordered_mergeNode (keys_merge r) (fun _ h => ih ha.2.2 h) ha b hb

theorem keys_insert (h : Heap) (k : Key) : (h.insert k).keys.Perm (k :: h.keys) := by
  simpa [insert, keys] using keys_merge (node 1 k nil nil) h

theorem ordered_insert {h : Heap} (ho : h.Ordered) (k : Key) : (h.insert k).Ordered :=
  ordered_merge ⟨by simp [keys], trivial, trivial⟩ ho

/-! ## The search -/

section Search

variable (live eligible : Key → Bool)

/-- What a search keeps: no key that was not there, no key twice, and of the live keys all but the
one found. -/
structure Leaves (h : Heap) (found : Option Key) (rest : Heap) : Prop where
  ordered : rest.Ordered
  subperm : (found.toList ++ rest.keys).Subperm h.keys
  live_perm : ((found.toList ++ rest.keys).filter live).Perm (h.keys.filter live)

theorem takeFirst_leaves {h : Heap} (ho : h.Ordered) :
    Leaves live h (h.takeFirst live eligible).1 (h.takeFirst live eligible).2 := by
  induction h using takeFirst.induct live eligible with
  | case1 =>
    rw [takeFirst]
    exact ⟨trivial, .refl _, .refl _⟩
  | case2 n k l r hlive ih =>
    have ho' := ih (ordered_merge ho.2.1 ho.2.2)
    rw [takeFirst, if_pos hlive]
    have hlive' : live k = false := by simpa using hlive
    refine ⟨ho'.ordered, ?_, ?_⟩
    · exact (ho'.subperm.trans (keys_merge l r).subperm).trans
        (List.sublist_cons_self k _).subperm
    · refine ho'.live_perm.trans (((keys_merge l r).filter live).trans ?_)
      simp [keys, hlive']
  | case3 n k l r hlive helig =>
    have hlive' : live k = true := by simpa using hlive
    rw [takeFirst, if_neg hlive, if_pos helig]
    have hperm : (k :: (l.merge r).keys).Perm (node n k l r).keys := (keys_merge l r).cons k
    exact ⟨ordered_merge ho.2.1 ho.2.2, hperm.subperm, hperm.filter live⟩
  | case4 n k l r hlive helig found rest heq ih =>
    have ho' := ih (ordered_merge ho.2.1 ho.2.2)
    rw [takeFirst, if_neg hlive, if_neg helig, heq]
    rw [heq] at ho'
    have hmid : (found.toList ++ (rest.insert k).keys).Perm (k :: (found.toList ++ rest.keys)) :=
      ((keys_insert rest k).append_left _).trans List.perm_middle
    have hsub : (k :: (found.toList ++ rest.keys)).Subperm (node n k l r).keys :=
      (List.subperm_cons k).mpr (ho'.subperm.trans (keys_merge l r).subperm)
    refine ⟨ordered_insert ho'.ordered k, hmid.subperm.trans hsub, ?_⟩
    refine (hmid.filter live).trans ?_
    have hlive' : live k = true := by simpa using hlive
    simp only [keys, List.filter_cons_of_pos hlive']
    exact (ho'.live_perm.trans ((keys_merge l r).filter live)).cons k

/-- A search finds nothing only if no live key is eligible. -/
theorem takeFirst_none {h : Heap} (hn : (h.takeFirst live eligible).1 = none) :
    ∀ x ∈ h.keys, live x = true → eligible x = false := by
  induction h using takeFirst.induct live eligible with
  | case1 => simp [keys]
  | case2 n k l r hlive ih =>
    rw [takeFirst, if_pos hlive] at hn
    intro x hx hx'
    rcases List.mem_cons.mp hx with rfl | hx
    · simp [hx'] at hlive
    · exact ih hn x ((keys_merge l r).mem_iff.mpr hx) hx'
  | case3 n k l r hlive helig =>
    rw [takeFirst, if_neg hlive, if_pos helig] at hn
    simp at hn
  | case4 n k l r hlive helig found rest heq ih =>
    rw [takeFirst, if_neg hlive, if_neg helig, heq] at hn
    rw [heq] at ih
    intro x hx hx'
    rcases List.mem_cons.mp hx with rfl | hx
    · simpa using helig
    · exact ih hn x ((keys_merge l r).mem_iff.mpr hx) hx'

/-- The key that a search finds is live and eligible, and no such key goes before it. -/
theorem takeFirst_some {h : Heap} (ho : h.Ordered) {k : Key}
    (hk : (h.takeFirst live eligible).1 = some k) :
    k ∈ h.keys ∧ live k = true ∧ eligible k = true ∧
      ∀ x ∈ h.keys, live x = true → eligible x = true → x.before k = false := by
  induction h using takeFirst.induct live eligible with
  | case1 => simp [takeFirst] at hk
  | case2 n k' l r hlive ih =>
    rw [takeFirst, if_pos hlive] at hk
    obtain ⟨hmem, hk1, hk2, hfirst⟩ := ih (ordered_merge ho.2.1 ho.2.2) hk
    refine ⟨List.mem_cons_of_mem _ ((keys_merge l r).mem_iff.mp hmem), hk1, hk2, ?_⟩
    intro x hx hx1 hx2
    rcases List.mem_cons.mp hx with rfl | hx
    · simp [hx1] at hlive
    · exact hfirst x ((keys_merge l r).mem_iff.mpr hx) hx1 hx2
  | case3 n k' l r hlive helig =>
    rw [takeFirst, if_neg hlive, if_pos helig] at hk
    obtain rfl : k' = k := by simpa using hk
    refine ⟨List.mem_cons_self, by simpa using hlive, helig, ?_⟩
    intro x hx _ _
    rcases List.mem_cons.mp hx with rfl | hx
    · exact Key.before_irrefl x
    · exact ho.1 x hx
  | case4 n k' l r hlive helig found rest heq ih =>
    rw [takeFirst, if_neg hlive, if_neg helig, heq] at hk
    rw [heq] at ih
    obtain ⟨hmem, hk1, hk2, hfirst⟩ := ih (ordered_merge ho.2.1 ho.2.2) hk
    refine ⟨List.mem_cons_of_mem _ ((keys_merge l r).mem_iff.mp hmem), hk1, hk2, ?_⟩
    intro x hx hx1 hx2
    rcases List.mem_cons.mp hx with rfl | hx
    · simp [hx2] at helig
    · exact hfirst x ((keys_merge l r).mem_iff.mpr hx) hx1 hx2

end Search

end Heap

end VertexEngine
