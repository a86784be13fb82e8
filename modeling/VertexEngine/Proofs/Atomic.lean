/-!
# Calls that change nothing when they are refused

A computation with a state that can be refused is atomic if a refusal leaves the state as it was.
One way to be atomic is to look first, and to do from then on only what cannot be refused.

* `Looks` are the computations that never change the state, and `Succeeds` those that are never
  refused; both are atomic.
* `Atomic.look_bind` puts a look in front of an atomic computation, and `Atomic.bind_succeeds` puts
  something that is never refused behind one.
-/

namespace VertexEngine

variable {σ ε α β : Type}

/-- A computation that leaves every state as it is. -/
def Looks (c : ExceptT ε (StateM σ) α) : Prop :=
  ∀ s, (c.run s).2 = s

/-- A computation that is never refused. -/
def Succeeds (c : ExceptT ε (StateM σ) α) : Prop :=
  ∀ s, ∃ a, (c.run s).1 = .ok a

/-- A computation that leaves the state as it is whenever it is refused. -/
def Atomic (c : ExceptT ε (StateM σ) α) : Prop :=
  ∀ s e, (c.run s).1 = .error e → (c.run s).2 = s

theorem run_bind_of_ok {c : ExceptT ε (StateM σ) α} {f : α → ExceptT ε (StateM σ) β} {s : σ} {a : α}
    (h : (c.run s).1 = .ok a) : (c >>= f).run s = (f a).run (c.run s).2 := by
  show (ExceptT.bindCont f (c.run s).1).run (c.run s).2 = _
  rw [h]
  rfl

theorem run_bind_of_error {c : ExceptT ε (StateM σ) α} {f : α → ExceptT ε (StateM σ) β} {s : σ}
    {e : ε} (h : (c.run s).1 = .error e) : (c >>= f).run s = (.error e, (c.run s).2) := by
  show (ExceptT.bindCont f (c.run s).1).run (c.run s).2 = _
  rw [h]
  rfl

/-! ## Looks -/

namespace Looks

protected theorem pure (a : α) : Looks (pure a : ExceptT ε (StateM σ) α) :=
  fun _ => rfl

protected theorem throw (e : ε) : Looks (throw e : ExceptT ε (StateM σ) α) :=
  fun _ => rfl

theorem check (e : Except ε α) : Looks (liftM e : ExceptT ε (StateM σ) α) := by
  cases e with
  | ok a => exact fun _ => rfl
  | error e => exact fun _ => rfl

theorem get_bind {f : σ → ExceptT ε (StateM σ) β} (hf : ∀ s, Looks (f s)) : Looks (get >>= f) :=
  fun s => hf s s

protected theorem bind {c : ExceptT ε (StateM σ) α} {f : α → ExceptT ε (StateM σ) β} (hc : Looks c)
    (hf : ∀ a, Looks (f a)) : Looks (c >>= f) := by
  intro s
  cases h : (c.run s).1 with
  | ok a =>
    rw [run_bind_of_ok h, hf a]
    exact hc s
  | error e =>
    rw [run_bind_of_error h]
    exact hc s

protected theorem forM {xs : List α} {f : α → ExceptT ε (StateM σ) Unit} (hf : ∀ a, Looks (f a)) :
    Looks (xs.forM f) := by
  induction xs with
  | nil => exact Looks.pure ()
  | cons a xs ih => exact Looks.bind (hf a) fun _ => ih

theorem atomic {c : ExceptT ε (StateM σ) α} (h : Looks c) : Atomic c :=
  fun s _ _ => h s

end Looks

/-! ## What is never refused -/

namespace Succeeds

protected theorem pure (a : α) : Succeeds (pure a : ExceptT ε (StateM σ) α) :=
  fun _ => ⟨a, rfl⟩

protected theorem set (s : σ) : Succeeds (set s : ExceptT ε (StateM σ) Unit) :=
  fun _ => ⟨(), rfl⟩

protected theorem modify (f : σ → σ) : Succeeds (modify f : ExceptT ε (StateM σ) Unit) :=
  fun _ => ⟨(), rfl⟩

protected theorem bind {c : ExceptT ε (StateM σ) α} {f : α → ExceptT ε (StateM σ) β}
    (hc : Succeeds c) (hf : ∀ a, Succeeds (f a)) : Succeeds (c >>= f) := by
  intro s
  obtain ⟨a, ha⟩ := hc s
  rw [run_bind_of_ok ha]
  exact hf a _

protected theorem forM {xs : List α} {f : α → ExceptT ε (StateM σ) Unit}
    (hf : ∀ a, Succeeds (f a)) : Succeeds (xs.forM f) := by
  induction xs with
  | nil => exact Succeeds.pure ()
  | cons a xs ih => exact Succeeds.bind (hf a) fun _ => ih

theorem atomic {c : ExceptT ε (StateM σ) α} (h : Succeeds c) : Atomic c := by
  intro s e he
  obtain ⟨a, ha⟩ := h s
  rw [ha] at he
  cases he

end Succeeds

/-! ## What is atomic -/

namespace Atomic

theorem throw_bind (e : ε) (f : α → ExceptT ε (StateM σ) β) : Atomic (throw e >>= f) :=
  fun _ _ _ => rfl

theorem get_bind {f : σ → ExceptT ε (StateM σ) β} (hf : ∀ s, Atomic (f s)) : Atomic (get >>= f) :=
  fun s e he => hf s s e he

/-- Whoever looked before has changed nothing. -/
theorem look_bind {c : ExceptT ε (StateM σ) α} {f : α → ExceptT ε (StateM σ) β} (hc : Looks c)
    (hf : ∀ a, Atomic (f a)) : Atomic (c >>= f) := by
  intro s e he
  cases h : (c.run s).1 with
  | ok a =>
    rw [run_bind_of_ok h, hc s] at he ⊢
    exact hf a s e he
  | error e' =>
    rw [run_bind_of_error h]
    exact hc s

theorem check_bind {e : Except ε α} {f : α → ExceptT ε (StateM σ) β} (hf : ∀ a, Atomic (f a)) :
    Atomic (liftM e >>= f) :=
  look_bind (.check e) hf

/-- What comes behind is not what was refused. -/
theorem bind_succeeds {c : ExceptT ε (StateM σ) α} {f : α → ExceptT ε (StateM σ) β} (hc : Atomic c)
    (hf : ∀ a, Succeeds (f a)) : Atomic (c >>= f) := by
  intro s e he
  cases h : (c.run s).1 with
  | ok a =>
    rw [run_bind_of_ok h] at he
    obtain ⟨b, hb⟩ := hf a (c.run s).2
    rw [hb] at he
    cases he
  | error e' =>
    rw [run_bind_of_error h]
    exact hc s e' h

end Atomic

end VertexEngine
