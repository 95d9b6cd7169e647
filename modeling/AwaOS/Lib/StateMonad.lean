import Mathlib.Data.Nat.Notation

/-!
Stepping through computations with exceptions, with and without a state.
-/

/--
The state in which a computation ends, normally or with an exception.
-/
def finalState {ε σ α : Type} : EStateM.Result ε σ α → σ
  | .ok _ s => s
  | .error _ s => s

/--
What a computation returns, if it ends normally.
-/
def returned {ε σ α : Type} : EStateM.Result ε σ α → Option α
  | .ok a _ => some a
  | .error _ _ => none

theorem eq_ok_of_returned {ε σ α : Type} {r : EStateM.Result ε σ α} {a : α} (h : returned r = some a)
    : r = .ok a (finalState r) := by
  cases r with
  | ok b s =>
    cases h
    rfl
  | error e s => contradiction

section Bind

variable {ε σ α β : Type} {s s' : σ} {x : EStateM ε σ α}

theorem bind_ok {a : α} (f : α → EStateM ε σ β) (h : x s = .ok a s') : (x >>= f) s = f a s' := by
  simp only [bind, EStateM.bind, h]

theorem bind_error {e : ε} (f : α → EStateM ε σ β) (h : x s = .error e s') : (x >>= f) s = .error e s' := by
  simp only [bind, EStateM.bind, h]

theorem bind_get (f : σ → EStateM ε σ β) : ((get : EStateM ε σ σ) >>= f) s = f s s := by
  rfl

theorem bind_modify (g : σ → σ) (f : Unit → EStateM ε σ β)
    : ((modify g : EStateM ε σ Unit) >>= f) s = f () (g s) := by
  rfl

theorem finalState_bind {f : α → EStateM ε σ β} (hf : ∀ a s', finalState (f a s') = s')
    : finalState ((x >>= f) s) = finalState (x s) := by
  cases hx : x s with
  | ok a s' =>
    rw [bind_ok _ hx, hf]
    rfl
  | error e s' =>
    rw [bind_error _ hx]
    rfl

/--
Every computation of `x`, normal or not, ends in a state that is related to the one in which it starts.
-/
def Relates (R : σ → σ → Prop) (x : EStateM ε σ α) : Prop :=
  ∀ s, R s (finalState (x s))

theorem Relates.bind {R : σ → σ → Prop} {f : α → EStateM ε σ β}
    (htrans : ∀ s₁ s₂ s₃, R s₁ s₂ → R s₂ s₃ → R s₁ s₃) (hx : Relates R x) (hf : ∀ a, Relates R (f a))
    : Relates R (x >>= f) := by
  intro s
  have hfirst := hx s
  cases h : x s with
  | ok a s' =>
    rw [h] at hfirst
    rw [bind_ok _ h]
    exact htrans s s' _ hfirst (hf a s')
  | error e s' =>
    rw [h] at hfirst
    rw [bind_error _ h]
    exact hfirst

end Bind

section Except

variable {ε α β : Type} {x : Except ε α} {f : α → Except ε β}

theorem except_bind_ok {a : α} (h : x = .ok a) : x >>= f = f a := by
  rw [h]
  rfl

theorem except_bind_eq_ok {b : β} : x >>= f = .ok b ↔ ∃ a, x = .ok a ∧ f a = .ok b := by
  cases x with
  | error e => simp [bind, Except.bind]
  | ok a => simp [bind, Except.bind]

/--
Every result satisfies `P` and every exception satisfies `E`.
-/
def Within (E : ε → Prop) (P : α → Prop) : Except ε α → Prop
  | .ok a => P a
  | .error e => E e

variable {E : ε → Prop} {P P' : α → Prop} {Q : β → Prop}

theorem within_pure {a : α} (h : P a) : Within E P (pure a) := by
  exact h

theorem within_throw {e : ε} (h : E e) : Within E P (throw e) := by
  exact h

theorem Within.bind (hx : Within E P x) (hf : ∀ a, P a → Within E Q (f a)) : Within E Q (x >>= f) := by
  cases x with
  | error e => exact hx
  | ok a => exact hf a hx

theorem Within.mono (hx : Within E P x) (h : ∀ a, P a → P' a) : Within E P' x := by
  cases x with
  | error e => exact hx
  | ok a => exact h a hx

theorem Within.and (hx : Within E P x) (hx' : Within E P' x) : Within E (fun a => P a ∧ P' a) x := by
  cases x with
  | error e => exact hx
  | ok a => exact ⟨hx, hx'⟩

end Except
