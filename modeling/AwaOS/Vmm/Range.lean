import AwaOS.Vmm.AllocFailure

/-!
When `vmm_alloc_pages` succeeds.
-/

namespace AwaOS

open Machine

/--
The page is mapped already, or there is no frame for it or for its page table.
-/
def Machine.Unmappable (s : Machine) (vpn : Nat) : Prop :=
  s.Mapped vpn ∨ ¬s.pmm.Supplies (if s.dir (vpn / 1024) = 0 then 2 else 1)

/--
No page of the range is mapped, and there are frames for all of them and for the page tables that they need.
-/
def Machine.CanMap (s : Machine) (vpn count : Nat) : Prop :=
  (∀ m, m < count → s.entry (vpn + m) = 0) ∧ s.pmm.Supplies (framesTaken s vpn count)

variable {s s' : Machine} {vpn n : Nat} {attr : Word}

theorem not_supplies_of_null (hnull : (pmmAllocPage s.pmm).1 = 0) (n : Nat) (hn : 0 < n)
    : ¬s.pmm.Supplies n := by
  intro hsupplies
  have hone : s.pmm.Supplies 1 := hsupplies.mono hn
  exact hone.1 hnull

theorem canMap_zero (s : Machine) (vpn : Nat) : s.CanMap vpn 0 :=
  ⟨fun _ hm => absurd hm (Nat.not_lt_zero _), trivial⟩

theorem canMap_one_iff (s : Machine) (vpn : Nat) : s.CanMap vpn 1 ↔ ¬s.Unmappable vpn := by
  have hneeds : NeedsTable s vpn 0 ↔ s.dir (vpn / 1024) = 0 := by
    unfold NeedsTable
    simp
  unfold Machine.CanMap Machine.Unmappable
  rw [framesTaken, framesTaken, Nat.zero_add, if_congr hneeds rfl rfl, not_or, not_not]
  constructor
  . rintro ⟨hfresh, hsupplies⟩
    exact ⟨not_not.mpr (hfresh 0 Nat.zero_lt_one), hsupplies⟩
  . rintro ⟨hunmapped, hsupplies⟩
    refine ⟨fun m hm => ?_, hsupplies⟩
    have hzero : m = 0 := by omega
    subst hzero
    exact not_not.mp hunmapped

theorem MapNext.unmappable (h : MapNext s vpn attr (.ok false s')) : s.Unmappable vpn := by
  cases h with
  | noFrame hnull =>
    right
    apply not_supplies_of_null hnull
    split
    . decide
    . decide
  | refused _ hfound hcases =>
    obtain ⟨_, hreason⟩ := hcases.refused
    cases hreason with
    | inl htaken => exact Or.inl htaken
    | inr hshort =>
      obtain ⟨hzero, hnull⟩ := hshort
      right
      rw [dir_allocated] at hzero
      rw [if_pos hzero]
      rintro ⟨_, hsecond, _⟩
      exact hsecond hnull

/--
The page at which a range fails cannot be mapped from the start.
-/
theorem MadePages.not_canMap (h : MadePages s vpn n attr s') {count : Nat} (hn : n < count)
    (hend : vpn + n < vpnEnd) (hstuck : s'.Unmappable (vpn + n))
    : ¬s.CanMap vpn count := by
  rintro ⟨hfresh, hsupplies⟩
  have hentry : s'.entry (vpn + n) = s.entry (vpn + n) := h.entry_kept (vpn + n) hend (by omega)
  cases hstuck with
  | inl hmapped =>
    have hne : s'.entry (vpn + n) ≠ 0 := hmapped
    rw [hentry] at hne
    exact hne (hfresh n hn)
  | inr hshort =>
    apply hshort
    have hnext := hsupplies.mono (framesTaken_mono s vpn (Nat.succ_le_of_lt hn))
    rw [framesTaken, Pmm.supplies_add, ← h.pmm_eq] at hnext
    rw [← if_congr (h.needsTable_iff hend) rfl rfl]
    exact hnext.2

theorem vmmAllocPages_iff (h : s.WellFormed) (va sz : Word) (hend : va.toNat / 4096 + sz.toNat / 4096 ≤ vpnEnd)
    (hattr : isCached attr = true)
    : ∃ made s', vmmAllocPages va sz attr s = .ok made s'
        ∧ (made = true ↔ s.CanMap (va.toNat / 4096) (sz.toNat / 4096))
        ∧ (made = true → MadePages s (va.toNat / 4096) (sz.toNat / 4096) attr s') := by
  have hcases := vmmAllocPages_cases h va sz hend hattr
  generalize vmmAllocPages va sz attr s = r at hcases
  cases hcases with
  | done s' hmade =>
    exact ⟨true, s', rfl, ⟨fun _ => ⟨hmade.fresh, hmade.supplies⟩, fun _ => rfl⟩, fun _ => hmade⟩
  | failed n hn s₁ s₂ s' hmade hnext _ =>
    have hnot := hmade.not_canMap hn (by omega) hnext.unmappable
    exact ⟨false, s', rfl, ⟨(nomatch ·), fun hcan => absurd hcan hnot⟩, (nomatch ·)⟩

end AwaOS
