/-!
# Calls that keep a property

Changes of a graph and calls of a core are computations with a state that can be refused.  Such a
computation keeps a property if it takes states with the property to states with it, whether it is
refused or not.

There is one rule for each way to build a computation, so that a proof follows the text of it.
-/

namespace VertexEngine

variable {σ ε α β : Type}

/-- A computation that takes states with a property to states with it. -/
def Keeps (I : σ → Prop) (c : ExceptT ε (StateM σ) α) : Prop :=
  ∀ s, I s → I (c.run s).2

namespace Keeps

variable {I : σ → Prop}

protected theorem pure (a : α) : Keeps I (pure a : ExceptT ε (StateM σ) α) :=
  fun _ h => h

protected theorem throw (e : ε) : Keeps I (throw e : ExceptT ε (StateM σ) α) :=
  fun _ h => h

theorem throw_bind (e : ε) (f : α → ExceptT ε (StateM σ) β) : Keeps I (throw e >>= f) :=
  fun _ h => h

protected theorem bind {c : ExceptT ε (StateM σ) α} {f : α → ExceptT ε (StateM σ) β}
    (hc : Keeps I c)
    (hf : ∀ a, Keeps I (f a)) : Keeps I (c >>= f) := by
  intro s h
  have hs := hc s h
  show I ((ExceptT.bindCont f (c.run s).1).run (c.run s).2).2
  cases (c.run s).1 with
  | ok a => exact hf a _ hs
  | error e => exact hs

/-- What was read of the state has the property. -/
theorem get_bind {f : σ → ExceptT ε (StateM σ) β} (hf : ∀ s, I s → Keeps I (f s)) :
    Keeps I (get >>= f) :=
  fun s h => hf s h s h

/-- After a check only the case in which it was passed is left. -/
theorem check_bind {e : Except ε α} {f : α → ExceptT ε (StateM σ) β}
    (hf : ∀ a, e = .ok a → Keeps I (f a)) : Keeps I (liftM e >>= f) := by
  cases e with
  | ok a => exact hf a rfl
  | error e => exact fun _ h => h

theorem check (e : Except ε α) : Keeps I (liftM e : ExceptT ε (StateM σ) α) := by
  cases e with
  | ok a => exact fun _ h => h
  | error e => exact fun _ h => h

protected theorem set {s : σ} (h : I s) : Keeps I (set s : ExceptT ε (StateM σ) Unit) :=
  fun _ _ => h

protected theorem modify {f : σ → σ} (hf : ∀ s, I s → I (f s)) :
    Keeps I (modify f : ExceptT ε (StateM σ) Unit) :=
  fun s h => hf s h

protected theorem forM {xs : List α} {f : α → ExceptT ε (StateM σ) Unit}
    (hf : ∀ a ∈ xs, Keeps I (f a)) : Keeps I (xs.forM f) := by
  induction xs with
  | nil => exact Keeps.pure ()
  | cons a xs ih =>
    have hrest : ∀ b ∈ xs, Keeps I (f b) := fun b hb => hf b (List.mem_cons_of_mem a hb)
    exact Keeps.bind (hf a List.mem_cons_self) fun _ => ih hrest

/-- After a row of checks only the case in which all of them were passed is left. -/
theorem checkAll_bind {xs : List α} {e : α → Except ε Unit} {f : PUnit → ExceptT ε (StateM σ) β}
    (hf : (∀ a ∈ xs, e a = .ok ()) → Keeps I (f ⟨⟩)) :
    Keeps I ((xs.forM fun a => liftM (e a)) >>= f) := by
  induction xs with
  | nil =>
    show Keeps I (pure ⟨⟩ >>= f)
    rw [pure_bind]
    exact hf (by simp)
  | cons a xs ih =>
    show Keeps I ((liftM (e a) >>= fun _ => xs.forM fun a => liftM (e a)) >>= f)
    rw [bind_assoc]
    refine .check_bind fun _ ha => ih fun hxs => hf fun b hb => ?_
    rcases List.mem_cons.mp hb with rfl | hb
    · exact ha
    · exact hxs b hb

end Keeps

end VertexEngine
