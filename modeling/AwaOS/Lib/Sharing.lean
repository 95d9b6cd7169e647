import AwaOS.Lib.Ownership

/-!
Ownership up to sharing. Some resources are referred to by several slots on purpose. They stay in use, and
every other resource is owned exclusively.
-/

variable {ι ρ : Type} {shared : ρ → Prop} {refs refs' : ι → Option ρ} {used used' : ρ → Bool}

structure OwnsBut (shared : ρ → Prop) (refs : ι → Option ρ) (used : ρ → Bool) : Prop where
  sharedUsed : ∀ r, shared r → used r = true
  unique : ∀ i j r, ¬shared r → refs i = some r → refs j = some r → i = j
  used : ∀ i r, refs i = some r → used r = true

/--
What is owned exclusively may as well be shared, as long as it is in use.
-/
theorem Owns.ownsBut (h : Owns refs used) (hshared : ∀ r, shared r → used r = true) : OwnsBut shared refs used where
  used := h.used
  unique := fun i j r _ => h.unique i j r
  sharedUsed := hshared

namespace OwnsBut

theorem mono (h : OwnsBut shared refs used) (hused : ∀ r, used r = true → used' r = true)
    : OwnsBut shared refs used' where
  used := fun i r hi => hused r (h.used i r hi)
  unique := h.unique
  sharedUsed := fun r hr => hused r (h.sharedUsed r hr)

theorem congr (h : OwnsBut shared refs used) (hrefs : ∀ i, refs' i = refs i) : OwnsBut shared refs' used := by
  rw [funext hrefs]
  exact h

theorem unreferenced (h : OwnsBut shared refs used) {r : ρ} (hr : used r = false) : Unreferenced refs r := by
  intro i hi
  rw [h.used i r hi] at hr
  contradiction

theorem not_shared (h : OwnsBut shared refs used) {r : ρ} (hr : used r = false) : ¬shared r := by
  intro hshared
  rw [h.sharedUsed r hshared] at hr
  contradiction

/--
Another slot may refer to a resource that is shared, or that is in use while no slot refers to it.
-/
def Ready (shared : ρ → Prop) (refs : ι → Option ρ) (used : ρ → Bool) (r : ρ) : Prop :=
  shared r ∨ Orphan refs used r

/--
One slot starts to refer to such a resource.
-/
theorem claim (h : OwnsBut shared refs used) (i₀ : ι) {r₀ : ρ} (hr₀ : Ready shared refs used r₀)
    (hrefs : ∀ i r, refs' i = some r → refs i = some r ∨ (i = i₀ ∧ r = r₀))
    : OwnsBut shared refs' used where
  used := by
    intro i r hi
    cases hrefs i r hi with
    | inl hold => exact h.used i r hold
    | inr hnew =>
      rw [hnew.2]
      exact hr₀.elim (h.sharedUsed r₀) And.left
  unique := by
    intro i j r hshared hi hj
    cases hrefs i r hi with
    | inl hiold =>
      cases hrefs j r hj with
      | inl hjold => exact h.unique i j r hshared hiold hjold
      | inr hjnew =>
        rw [hjnew.2] at hiold hshared
        exact absurd hiold ((hr₀.resolve_left hshared).2 i)
    | inr hinew =>
      cases hrefs j r hj with
      | inl hjold =>
        rw [hinew.2] at hjold hshared
        exact absurd hjold ((hr₀.resolve_left hshared).2 j)
      | inr hjnew => rw [hinew.1, hjnew.1]
  sharedUsed := h.sharedUsed

/--
One slot stops to refer to a resource that is not shared, which then may be released.
-/
theorem drop (h : OwnsBut shared refs used) (i₀ : ι) (hown : ∀ r, refs i₀ = some r → ¬shared r)
    (hrefs : ∀ i r, refs' i = some r → refs i = some r ∧ i ≠ i₀)
    (hused : ∀ r, used r = true → refs i₀ ≠ some r → used' r = true)
    : OwnsBut shared refs' used' where
  used := by
    intro i r hi
    obtain ⟨hold, hne⟩ := hrefs i r hi
    apply hused r (h.used i r hold)
    intro hi₀
    exact hne (h.unique i i₀ r (hown r hi₀) hold hi₀)
  unique := by
    intro i j r hshared hi hj
    exact h.unique i j r hshared (hrefs i r hi).1 (hrefs j r hj).1
  sharedUsed := by
    intro r hr
    apply hused r (h.sharedUsed r hr)
    intro hi₀
    exact hown r hi₀ hr

/--
A resource to which no slot refers is released.
-/
theorem release (h : OwnsBut shared refs used) {r₀ : ρ} (hr₀ : Unreferenced refs r₀) (hshared : ¬shared r₀)
    (hused : ∀ r, used r = true → r ≠ r₀ → used' r = true)
    : OwnsBut shared refs used' where
  used := by
    intro i r hi
    apply hused r (h.used i r hi)
    intro heq
    rw [heq] at hi
    exact hr₀ i hi
  unique := h.unique
  sharedUsed := by
    intro r hr
    apply hused r (h.sharedUsed r hr)
    intro heq
    rw [heq] at hr
    exact hshared hr

end OwnsBut
