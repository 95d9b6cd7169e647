import Mathlib.Data.Fintype.Pigeonhole
import Mathlib.Logic.Relation

/-!
Walks with a partial function as their step. Where there are finitely many places, a walk ends if and only if
it never comes back to a place.
-/

namespace Walk

/--
Where the walk from `a` is after so many steps, `none` if it ended before.
-/
def after {α : Type} (next : α → Option α) : Nat → α → Option α
  | 0, a => some a
  | n + 1, a => (next a).bind (after next n)

def Ends {α : Type} (next : α → Option α) (a : α) : Prop :=
  ∃ n, after next n a = none

/--
One step of the walk.
-/
def Step {α : Type} (next : α → Option α) (a b : α) : Prop :=
  next a = some b

abbrev Reaches {α : Type} (next : α → Option α) : α → α → Prop :=
  Relation.ReflTransGen (Step next)

/--
The walk comes back to `a` after a step or more.
-/
def ComesBack {α : Type} (next : α → Option α) (a : α) : Prop :=
  Relation.TransGen (Step next) a a

section Walk

variable {α : Type} {next : α → Option α} {a b : α}

theorem after_add (n k : Nat) (a : α) : after next (n + k) a = (after next n a).bind (after next k) := by
  induction n generalizing a with
  | zero =>
    rw [Nat.zero_add]
    rfl
  | succ n ih =>
    rw [Nat.add_right_comm, after, after]
    cases next a with
    | none => rfl
    | some b => exact ih b

theorem after_none_of_le {n k : Nat} (h : after next n a = none) (hle : n ≤ k) : after next k a = none := by
  obtain ⟨d, rfl⟩ := Nat.exists_eq_add_of_le hle
  rw [after_add, h]
  rfl

theorem after_one (a : α) : after next 1 a = next a := by
  unfold after
  cases next a with
  | none => rfl
  | some b => rfl

theorem reaches_iff : Reaches next a b ↔ ∃ n, after next n a = some b := by
  constructor
  . intro h
    induction h with
    | refl => exact ⟨0, rfl⟩
    | @tail c d _ hstep ih =>
      obtain ⟨n, hn⟩ := ih
      refine ⟨n + 1, ?_⟩
      rw [after_add, hn]
      change after next 1 c = some d
      rw [after_one]
      exact hstep
  . intro h
    obtain ⟨n, hn⟩ := h
    induction n generalizing a with
    | zero =>
      cases hn
      exact .refl
    | succ n ih =>
      rw [after] at hn
      obtain ⟨c, hc, hn⟩ := Option.bind_eq_some_iff.mp hn
      exact .head hc (ih hn)

theorem comesBack_iff : ComesBack next a ↔ ∃ n, after next (n + 1) a = some a := by
  unfold ComesBack
  rw [Relation.TransGen.head'_iff]
  constructor
  . intro h
    obtain ⟨b, hb, hreach⟩ := h
    obtain ⟨n, hn⟩ := reaches_iff.mp hreach
    refine ⟨n, ?_⟩
    rw [after, show next a = some b from hb]
    exact hn
  . intro h
    obtain ⟨n, hn⟩ := h
    rw [after] at hn
    obtain ⟨b, hb, hn⟩ := Option.bind_eq_some_iff.mp hn
    exact ⟨b, hb, reaches_iff.mpr ⟨n, hn⟩⟩

theorem ends_of_reaches (hreach : Reaches next a b) : Ends next a ↔ Ends next b := by
  obtain ⟨n, hn⟩ := reaches_iff.mp hreach
  constructor
  . intro h
    obtain ⟨k, hk⟩ := h
    refine ⟨k, ?_⟩
    have hlater := after_none_of_le hk (Nat.le_add_left k n)
    rw [after_add, hn] at hlater
    exact hlater
  . intro h
    obtain ⟨k, hk⟩ := h
    refine ⟨n + k, ?_⟩
    rw [after_add, hn]
    exact hk

/--
A walk that ends has a last place.
-/
theorem Ends.exists_last (h : Ends next a) : ∃ b, Reaches next a b ∧ next b = none := by
  obtain ⟨n, hn⟩ := h
  induction n generalizing a with
  | zero => contradiction
  | succ n ih =>
    cases hb : next a with
    | none => exact ⟨a, .refl, hb⟩
    | some b =>
      rw [after, hb] at hn
      obtain ⟨c, hreach, hc⟩ := ih hn
      exact ⟨c, .head hb hreach, hc⟩

/--
A walk ends if each of its steps makes something smaller. `P` is an invariant of the walk.
-/
theorem ends_of_measure {P : α → Prop} (measure : α → Nat)
    (hstep : ∀ a b, P a → next a = some b → P b ∧ measure b < measure a) {a : α} (ha : P a)
    : Ends next a := by
  generalize hn : measure a = n
  induction n using Nat.strongRecOn generalizing a with
  | ind n ih =>
    cases hb : next a with
    | none =>
      refine ⟨1, ?_⟩
      rw [after_one]
      exact hb
    | some b =>
      obtain ⟨hb', hless⟩ := hstep a b ha hb
      obtain ⟨k, hk⟩ := ih (measure b) (hn ▸ hless) hb' rfl
      refine ⟨k + 1, ?_⟩
      rw [after, hb]
      exact hk

/--
A walk that comes back goes round for ever.
-/
theorem not_ends_of_comesBack (h : ComesBack next a) : ¬Ends next a := by
  obtain ⟨n, hn⟩ := comesBack_iff.mp h
  have hnever : ∀ k, after next k a ≠ none := by
    intro k
    induction k using Nat.strongRecOn with
    | ind k ih =>
      intro hk
      by_cases hle : n + 1 ≤ k
      . obtain ⟨d, rfl⟩ := Nat.exists_eq_add_of_le hle
        rw [after_add, hn] at hk
        exact ih d (by omega) hk
      . have hlater := after_none_of_le hk (show k ≤ n + 1 by omega)
        rw [hn] at hlater
        contradiction
  intro hends
  obtain ⟨k, hk⟩ := hends
  exact hnever k hk

/--
Every place on the way round is one that the walk comes back to.
-/
theorem ComesBack.of_reaches (h : ComesBack next a) (hreach : Reaches next a b) : ComesBack next b := by
  obtain ⟨k, hk⟩ := comesBack_iff.mp h
  obtain ⟨n, hn⟩ := reaches_iff.mp hreach
  apply comesBack_iff.mpr
  refine ⟨k, ?_⟩
  have hround : after next (n + (k + 1)) a = some b := by
    rw [Nat.add_comm, after_add, hk]
    exact hn
  rw [after_add, hn] at hround
  exact hround

/--
A walk that does not end is somewhere twice.
-/
theorem exists_comesBack [Finite α] (h : ¬Ends next a) : ∃ b, Reaches next a b ∧ ComesBack next b := by
  have hsome : ∀ n, ∃ b, after next n a = some b := by
    intro n
    cases hn : after next n a with
    | none => exact absurd ⟨n, hn⟩ h
    | some b => exact ⟨b, rfl⟩
  choose place hplace using hsome
  have htwice : ∀ i j, i < j → place i = place j → ∃ b, Reaches next a b ∧ ComesBack next b := by
    intro i j hij heq
    obtain ⟨d, rfl⟩ := Nat.exists_eq_add_of_lt hij
    refine ⟨place i, reaches_iff.mpr ⟨i, hplace i⟩, comesBack_iff.mpr ⟨d, ?_⟩⟩
    have hlater := hplace (i + d + 1)
    rw [Nat.add_assoc, after_add, hplace i] at hlater
    rw [Nat.add_assoc] at heq
    rw [heq]
    rw [heq] at hlater
    exact hlater
  obtain ⟨i, j, hne, heq⟩ := Finite.exists_ne_map_eq_of_infinite place
  cases Nat.lt_or_gt_of_ne hne with
  | inl hlt => exact htwice i j hlt heq
  | inr hlt => exact htwice j i hlt heq.symm

theorem ends_iff [Finite α] : Ends next a ↔ ∀ b, Reaches next a b → ¬ComesBack next b := by
  constructor
  . intro h b hreach hback
    exact not_ends_of_comesBack hback ((ends_of_reaches hreach).mp h)
  . intro h
    by_contra hnot
    obtain ⟨b, hreach, hback⟩ := exists_comesBack hnot
    exact h b hreach hback

end Walk

section Map

variable {α β : Type} {next : α → Option α} {next' : β → Option β} {f : α → β}

/--
A walk whose places are seen through `f`.
-/
theorem after_map (h : ∀ a, (next a).map f = next' (f a)) (n : Nat) (a : α)
    : (after next n a).map f = after next' n (f a) := by
  induction n generalizing a with
  | zero => rfl
  | succ n ih =>
    rw [after, after, ← h a]
    cases next a with
    | none => rfl
    | some b => exact ih b

theorem Reaches.map (h : ∀ a, (next a).map f = next' (f a)) {a b : α} (hreach : Reaches next a b)
    : Reaches next' (f a) (f b) := by
  obtain ⟨n, hn⟩ := reaches_iff.mp hreach
  apply reaches_iff.mpr
  refine ⟨n, ?_⟩
  rw [← after_map h, hn]
  rfl

theorem Reaches.exists_map (h : ∀ a, (next a).map f = next' (f a)) {a : α} {b' : β}
    (hreach : Reaches next' (f a) b')
    : ∃ b, Reaches next a b ∧ f b = b' := by
  obtain ⟨n, hn⟩ := reaches_iff.mp hreach
  rw [← after_map h] at hn
  obtain ⟨b, hb, heq⟩ := Option.map_eq_some_iff.mp hn
  exact ⟨b, reaches_iff.mpr ⟨n, hb⟩, heq⟩

theorem ends_map (h : ∀ a, (next a).map f = next' (f a)) (a : α) : Ends next a ↔ Ends next' (f a) := by
  unfold Ends
  apply exists_congr
  intro n
  rw [← after_map h n a, Option.map_eq_none_iff]

end Map

end Walk
