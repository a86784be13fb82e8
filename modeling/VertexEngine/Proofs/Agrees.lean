/-!
# Calls that cannot tell states apart

A computation with a state that can be refused agrees with another one over a relation of states if
from related states both give the same answer and leave related states behind.  With the same
computation on both sides this says that it cannot tell related states apart.

There is one rule for each way to build a computation, as there is for what a computation keeps.
-/

namespace VertexEngine

variable {σ ε α β : Type}

/-- From related states both computations give the same answer, and leave related states. -/
def Agrees (R : σ → σ → Prop) (c d : ExceptT ε (StateM σ) α) : Prop :=
  ∀ s s', R s s' → (d.run s').1 = (c.run s).1 ∧ R (c.run s).2 (d.run s').2

namespace Agrees

variable {R : σ → σ → Prop}

protected theorem pure (a : α) : Agrees R (pure a : ExceptT ε (StateM σ) α) (pure a) :=
  fun _ _ h => ⟨rfl, h⟩

protected theorem throw (e : ε) : Agrees R (throw e : ExceptT ε (StateM σ) α) (throw e) :=
  fun _ _ h => ⟨rfl, h⟩

theorem throw_bind (e : ε) (f f' : α → ExceptT ε (StateM σ) β) :
    Agrees R (throw e >>= f) (throw e >>= f') :=
  fun _ _ h => ⟨rfl, h⟩

protected theorem bind {c d : ExceptT ε (StateM σ) α} {f f' : α → ExceptT ε (StateM σ) β}
    (hc : Agrees R c d) (hf : ∀ a, Agrees R (f a) (f' a)) : Agrees R (c >>= f) (d >>= f') := by
  intro s s' h
  obtain ⟨hanswer, hstate⟩ := hc s s' h
  show ((ExceptT.bindCont f' (d.run s').1).run (d.run s').2).1 =
      ((ExceptT.bindCont f (c.run s).1).run (c.run s).2).1 ∧
    R ((ExceptT.bindCont f (c.run s).1).run (c.run s).2).2
      ((ExceptT.bindCont f' (d.run s').1).run (d.run s').2).2
  rw [hanswer]
  cases (c.run s).1 with
  | ok a => exact hf a _ _ hstate
  | error e => exact ⟨rfl, hstate⟩

/-- What was read of the states is related. -/
theorem get_bind {f f' : σ → ExceptT ε (StateM σ) β}
    (hf : ∀ s s', R s s' → Agrees R (f s) (f' s')) : Agrees R (get >>= f) (get >>= f') :=
  fun s s' h => hf s s' h s s' h

/-- After a check only the case in which it was passed is left. -/
theorem check_bind {e : Except ε α} {f f' : α → ExceptT ε (StateM σ) β}
    (hf : ∀ a, Agrees R (f a) (f' a)) : Agrees R (liftM e >>= f) (liftM e >>= f') := by
  cases e with
  | ok a => exact hf a
  | error e => exact fun _ _ h => ⟨rfl, h⟩

theorem check (e : Except ε α) :
    Agrees R (liftM e : ExceptT ε (StateM σ) α) (liftM e) := by
  cases e with
  | ok a => exact fun _ _ h => ⟨rfl, h⟩
  | error e => exact fun _ _ h => ⟨rfl, h⟩

protected theorem set {s s' : σ} (h : R s s') :
    Agrees R (set s : ExceptT ε (StateM σ) Unit) (set s') :=
  fun _ _ _ => ⟨rfl, h⟩

protected theorem modify {f f' : σ → σ} (hf : ∀ s s', R s s' → R (f s) (f' s')) :
    Agrees R (modify f : ExceptT ε (StateM σ) Unit) (modify f') :=
  fun s s' h => ⟨rfl, hf s s' h⟩

protected theorem forM {xs : List α} {f f' : α → ExceptT ε (StateM σ) Unit}
    (hf : ∀ a, Agrees R (f a) (f' a)) : Agrees R (xs.forM f) (xs.forM f') := by
  induction xs with
  | nil => exact Agrees.pure ()
  | cons a xs ih => exact Agrees.bind (hf a) fun _ => ih

end Agrees

end VertexEngine
