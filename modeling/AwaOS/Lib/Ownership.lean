import Mathlib.Logic.Function.Basic

/-!
Exclusive ownership. Each slot may refer to one resource; a resource that some slot refers to is in use
and no other slot refers to it.
-/

variable {ι ρ : Type} {refs refs' : ι → Option ρ} {used used' : ρ → Bool}

structure Owns (refs : ι → Option ρ) (used : ρ → Bool) : Prop where
  used : ∀ i r, refs i = some r → used r = true
  unique : ∀ i j r, refs i = some r → refs j = some r → i = j

/--
No slot refers to `r`.
-/
def Unreferenced (refs : ι → Option ρ) (r : ρ) : Prop :=
  ∀ i, refs i ≠ some r

/--
A resource in use that no slot refers to.
-/
def Orphan (refs : ι → Option ρ) (used : ρ → Bool) (r : ρ) : Prop :=
  used r = true ∧ Unreferenced refs r

namespace Owns

theorem mono (h : Owns refs used) (hused : ∀ r, used r = true → used' r = true) : Owns refs used' where
  used := fun i r hi => hused r (h.used i r hi)
  unique := h.unique

theorem unreferenced (h : Owns refs used) {r : ρ} (hr : used r = false) : Unreferenced refs r := by
  intro i hi
  rw [h.used i r hi] at hr
  contradiction

theorem congr (h : Owns refs used) (hrefs : ∀ i, refs' i = refs i) : Owns refs' used := by
  rw [funext hrefs]
  exact h

/--
One slot starts to refer to a resource in use that no slot refers to.
-/
theorem claim (h : Owns refs used) (i₀ : ι) {r₀ : ρ} (hr₀ : Unreferenced refs r₀) (hused : used r₀ = true)
    (hrefs : ∀ i r, refs' i = some r → refs i = some r ∨ (i = i₀ ∧ r = r₀))
    : Owns refs' used where
  used := by
    intro i r hi
    cases hrefs i r hi with
    | inl hold => exact h.used i r hold
    | inr hnew =>
      rw [hnew.2]
      exact hused
  unique := by
    intro i j r hi hj
    cases hrefs i r hi with
    | inl hiold =>
      cases hrefs j r hj with
      | inl hjold => exact h.unique i j r hiold hjold
      | inr hjnew =>
        rw [hjnew.2] at hiold
        exact absurd hiold (hr₀ i)
    | inr hinew =>
      cases hrefs j r hj with
      | inl hjold =>
        rw [hinew.2] at hjold
        exact absurd hjold (hr₀ j)
      | inr hjnew => rw [hinew.1, hjnew.1]

/--
One slot stops to refer to its resource, which then may be released.
-/
theorem drop (h : Owns refs used) (i₀ : ι) (hrefs : ∀ i r, refs' i = some r → refs i = some r ∧ i ≠ i₀)
    (hused : ∀ r, used r = true → refs i₀ ≠ some r → used' r = true)
    : Owns refs' used' where
  used := by
    intro i r hi
    obtain ⟨hold, hne⟩ := hrefs i r hi
    apply hused r (h.used i r hold)
    intro hi₀
    exact hne (h.unique i i₀ r hold hi₀)
  unique := by
    intro i j r hi hj
    exact h.unique i j r (hrefs i r hi).1 (hrefs j r hj).1

/--
A resource is in use because some slot refers to it, or it is an orphan.
-/
theorem used_iff (h : Owns refs used) (r : ρ) : used r = true ↔ Orphan refs used r ∨ ∃ i, refs i = some r := by
  constructor
  . intro hused
    by_cases href : ∃ i, refs i = some r
    . exact Or.inr href
    . exact Or.inl ⟨hused, fun i hi => href ⟨i, hi⟩⟩
  . rintro (horphan | ⟨i, hi⟩)
    . exact horphan.1
    . exact h.used i r hi

/--
A free resource is taken, and no slot refers to it yet.
-/
theorem orphan_take (h : Owns refs used) {r₀ : ρ} (hfree : used r₀ = false)
    (hused : ∀ r, used' r = true ↔ used r = true ∨ r = r₀) (r : ρ)
    : Orphan refs used' r ↔ Orphan refs used r ∨ r = r₀ := by
  unfold Orphan
  rw [hused]
  constructor
  . rintro ⟨hold | hnew, hunref⟩
    . exact Or.inl ⟨hold, hunref⟩
    . exact Or.inr hnew
  . rintro (⟨hold, hunref⟩ | hnew)
    . exact ⟨Or.inl hold, hunref⟩
    . rw [hnew]
      exact ⟨Or.inr rfl, h.unreferenced hfree⟩

/--
An empty slot starts to refer to a resource.
-/
theorem orphan_claim (i₀ : ι) {r₀ : ρ} (hempty : refs i₀ = none) (hself : refs' i₀ = some r₀)
    (hother : ∀ i, i ≠ i₀ → refs' i = refs i) (r : ρ)
    : Orphan refs' used r ↔ Orphan refs used r ∧ r ≠ r₀ := by
  constructor
  . rintro ⟨hused, hunref⟩
    refine ⟨⟨hused, ?_⟩, ?_⟩
    . intro i hi
      by_cases heq : i = i₀
      . rw [heq, hempty] at hi
        contradiction
      . rw [← hother i heq] at hi
        exact hunref i hi
    . intro heq
      rw [heq] at hunref
      exact hunref i₀ hself
  . rintro ⟨⟨hused, hunref⟩, hne⟩
    refine ⟨hused, ?_⟩
    intro i hi
    by_cases heq : i = i₀
    . rw [heq, hself] at hi
      injection hi with hr
      exact hne hr.symm
    . rw [hother i heq] at hi
      exact hunref i hi

/--
A slot stops to refer to its resource, which is released.
-/
theorem orphan_drop (i₀ : ι) {r₀ : ρ} (hself : refs i₀ = some r₀) (hempty : refs' i₀ = none)
    (hother : ∀ i, i ≠ i₀ → refs' i = refs i) (hused : ∀ r, used' r = true ↔ used r = true ∧ r ≠ r₀) (r : ρ)
    : Orphan refs' used' r ↔ Orphan refs used r := by
  unfold Orphan
  rw [hused]
  constructor
  . rintro ⟨⟨hold, hne⟩, hunref⟩
    refine ⟨hold, ?_⟩
    intro i hi
    by_cases heq : i = i₀
    . rw [heq, hself] at hi
      injection hi with hr
      exact hne hr.symm
    . rw [← hother i heq] at hi
      exact hunref i hi
  . rintro ⟨hold, hunref⟩
    refine ⟨⟨hold, ?_⟩, ?_⟩
    . intro heq
      rw [heq] at hunref
      exact hunref i₀ hself
    . intro i hi
      by_cases heq : i = i₀
      . rw [heq, hempty] at hi
        contradiction
      . rw [hother i heq] at hi
        exact hunref i hi

end Owns
