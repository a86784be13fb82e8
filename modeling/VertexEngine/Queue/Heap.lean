import VertexEngine.Queue.Priority

/-!
# Heaps of keys

A key stands for one pending task: its priority, its vertex, and a number that tells which of two
keys was made first.  A heap holds keys in a leftist tree, with the key that goes first at the root:
the right spine of every subtree is its shortest, so that a merge, which walks right spines only,
takes logarithmic time.
-/

namespace VertexEngine

/-- What orders one pending task among the others. -/
structure Key where
  priority : Float
  /-- The number of keys made before this one. -/
  seq : Nat
  vertex : VertexId

/-- Whether `a` goes first: by the greater priority, and then by age. -/
def Key.before (a b : Key) : Bool :=
  Priority.rank b.priority < Priority.rank a.priority ||
    (Priority.rank a.priority = Priority.rank b.priority && a.seq < b.seq)

/-- A tree of keys; each node keeps the length of its right spine. -/
inductive Heap where
  | nil
  | node (spine : Nat) (key : Key) (left right : Heap)

namespace Heap

def spine : Heap → Nat
  | nil => 0
  | node n .. => n

/-- The number of keys. -/
def size : Heap → Nat
  | nil => 0
  | node _ _ l r => 1 + l.size + r.size

/-- All keys, the root first. -/
def keys : Heap → List Key
  | nil => []
  | node _ k l r => k :: (l.keys ++ r.keys)

/-- A node over two heaps, the one with the shorter spine on the right. -/
def join (k : Key) (a b : Heap) : Heap :=
  if b.spine ≤ a.spine then node (b.spine + 1) k a b else node (a.spine + 1) k b a

/-- Merges the heap `node n k l r` with another one, given how to merge `r` with any heap. -/
def mergeNode (n : Nat) (k : Key) (l r : Heap) (mergeRest : Heap → Heap) : Heap → Heap
  | nil => node n k l r
  | node m k' l' r' =>
    if k.before k' then join k l (mergeRest (node m k' l' r'))
    else join k' l' (mergeNode n k l r mergeRest r')

/-- All keys of two heaps in one. -/
def merge (a : Heap) : Heap → Heap :=
  match a with
  | nil => fun b => b
  | node n k l r => mergeNode n k l r (merge r)

def insert (h : Heap) (k : Key) : Heap :=
  (node 1 k nil nil).merge h

@[simp] theorem size_join (k : Key) (a b : Heap) : (join k a b).size = 1 + a.size + b.size := by
  unfold join
  split
  · simp [size]
  · simp [size]; omega

@[simp] theorem size_mergeNode {n : Nat} {k : Key} {l r : Heap} {f : Heap → Heap}
    (hf : ∀ b, (f b).size = r.size + b.size) (b : Heap) :
    (mergeNode n k l r f b).size = (node n k l r).size + b.size := by
  induction b with
  | nil => simp [mergeNode, size]
  | node m k' l' r' _ ih =>
    unfold mergeNode
    split
    · simp [hf, size]; omega
    · simp [ih, size]; omega

@[simp] theorem size_merge (a b : Heap) : (a.merge b).size = a.size + b.size := by
  induction a generalizing b with
  | nil => simp [merge, size]
  | node n k l r _ ih => exact size_mergeNode ih b

/-- The first key that is live and eligible, and the heap without it.  Keys before it are dropped if
they are not live and kept if they are. -/
def takeFirst (live eligible : Key → Bool) : Heap → Option Key × Heap
  | nil => (none, nil)
  | node _ k l r =>
    if !live k then (l.merge r).takeFirst live eligible
    else if eligible k then (some k, l.merge r)
    else
      let (found, rest) := (l.merge r).takeFirst live eligible
      (found, rest.insert k)
termination_by h => h.size
decreasing_by all_goals simp [size]

end Heap

end VertexEngine
