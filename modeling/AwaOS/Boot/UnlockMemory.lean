import AwaOS.Boot.LockMemory
import AwaOS.Vmm.ForcedMapping

/-!
What `unlock_reserved_memory` does to the page tables and to the bitmap.
-/

namespace AwaOS

open Machine reservedMemory

section UnlockPage

variable {s s₁ s' : Machine} {page : Word} {pages : List Word}

/--
To unmap page `v` frees this frame.
-/
def Frees (s : Machine) (v frame : Nat) : Prop :=
  v < vpnEnd ∧ s.Releases (s.entry v) frame

/--
From `s` to `s'`, these pages were unmapped. The frames may be those of page tables.
-/
structure Unlocked (s : Machine) (pages : List Word) (s' : Machine) : Prop where
  recursive : s'.Recursive
  tables : ∀ i, i < 1023 → s'.dir i = 0 ∨ isCached (s'.dir i) = true
  dir_eq : ∀ i, s'.dir i = s.dir i
  entry_unmapped : ∀ v, v < vpnEnd → v ∈ numbers pages → s'.entry v = 0
  entry_other : ∀ v, v < vpnEnd → v ∉ numbers pages → s'.entry v = s.entry v
  occupied_iff : ∀ frame, s'.pmm.occupied frame = true
    ↔ s.pmm.occupied frame = true ∧ ∀ v, v ∈ numbers pages → ¬Frees s v frame
  maxPg_eq : s'.pmm.maxPg = s.pmm.maxPg

theorem unlocked_refl (hrec : s.Recursive) (htables : ∀ i, i < 1023 → s.dir i = 0 ∨ isCached (s.dir i) = true)
    (hempty : ∀ v, v < vpnEnd → v ∈ numbers pages → s.entry v = 0)
    : Unlocked s pages s where
  recursive := hrec
  tables := htables
  dir_eq := fun _ => rfl
  entry_unmapped := hempty
  entry_other := fun _ _ _ => rfl
  occupied_iff := by
    intro frame
    have hnone : ∀ v, v ∈ numbers pages → ¬Frees s v frame := by
      intro v hmem hfrees
      obtain ⟨hv, hreleases⟩ := hfrees
      rw [hempty v hv hmem] at hreleases
      exact not_releases_zero frame hreleases
    exact ⟨fun hframe => ⟨hframe, hnone⟩, And.left⟩
  maxPg_eq := rfl

theorem unlockPage_unlocked (hrec : s.Recursive)
    (htables : ∀ i, i < 1023 → s.dir i = 0 ∨ isCached (s.dir i) = true) (page : Word)
    : ∃ s', vmmUnmapPage page s = .ok () s' ∧ Unlocked s [page] s' := by
  have hmem : ∀ v, v ∈ numbers [page] ↔ v = page.toNat / 4096 := fun v => List.mem_singleton
  have hcases := vmmUnmapPage_cases hrec.toSelfMapped page
  generalize vmmUnmapPage page s = r at hcases
  cases hcases with
  | guarded hslot =>
    refine ⟨s, rfl, unlocked_refl hrec htables ?_⟩
    intro v hv hpage
    rw [(hmem v).mp hpage, page_lt_vpnEnd_iff] at hv
    omega
  | absent hslot hzero =>
    refine ⟨s, rfl, unlocked_refl hrec htables ?_⟩
    intro v _ hpage
    rw [(hmem v).mp hpage]
    apply entry_of_absent
    rw [(index_div page).1]
    exact hzero
  | fault hslot hne e habsent =>
    rw [(htables _ hslot).resolve_left hne] at habsent
    contradiction
  | cleared hslot hpresent =>
    have hmem' := s.releasedEntry_mem (s.table (l1Index page) (l2Index page))
    have hcr3 := s.releasedEntry_cr3 (s.table (l1Index page) (l2Index page))
    have hne := ne_zero_of_isCached hpresent
    have hentry : s.entry (page.toNat / 4096) = s.table (l1Index page) (l2Index page) := by
      rw [entry_va]
      unfold pte
      rw [if_neg hne]
    have hrec' : (s.releasedEntry (s.table (l1Index page) (l2Index page))).Recursive := hrec.congr hmem' hcr3
    have hne' : (s.releasedEntry (s.table (l1Index page) (l2Index page))).dir (l1Index page) ≠ 0 := by
      rw [dir_congr hmem' hcr3]
      exact hne
    have hdir := hrec'.dir_setTable (l1Index page) (l2Index page) 0 hslot hne'
    have hpte := hrec'.pte_setTable (l1Index page) (l2Index page) 0 hslot hne'
    have hslot' : page.toNat / 4096 < vpnEnd := page_lt_vpnEnd_iff.mpr hslot
    refine ⟨_, rfl, ?_⟩
    constructor
    . exact hrec'.setTable _ _ _ hslot hne'
    . intro i hi
      rw [hdir, dir_congr hmem' hcr3]
      exact htables i hi
    . intro i
      rw [hdir, dir_congr hmem' hcr3]
    . intro v _ hpage
      rw [(hmem v).mp hpage, entry_va, hpte _ _ hslot, if_pos ⟨rfl, rfl⟩]
    . intro v hv hother
      unfold entry
      rw [hpte _ _ (by unfold vpnEnd at hv; omega), if_neg, pte_congr hmem' hcr3]
      intro hand
      exact hother ((hmem v).mpr (eq_of_index.mp hand))
    . intro frame
      rw [pmm_setTable, occupied_releasedEntry_iff, ← hentry]
      apply and_congr_right
      intro _
      constructor
      . intro h v hpage hfrees
        rw [(hmem v).mp hpage] at hfrees
        exact h hfrees.2
      . intro h hfrees
        exact h _ ((hmem _).mpr rfl) ⟨hslot', hfrees⟩
    . rw [pmm_setTable]
      exact maxPg_releasedEntry s _

theorem Unlocked.cons (hone : Unlocked s [page] s₁) (hrest : Unlocked s₁ pages s')
    : Unlocked s (page :: pages) s' := by
  have hmem : ∀ v, v ∈ numbers (page :: pages) ↔ v ∈ numbers [page] ∨ v ∈ numbers pages := by
    intro v
    rw [numbers_cons, List.mem_cons, numbers_cons, List.mem_cons, show numbers [] = [] from rfl]
    simp
  constructor
  . exact hrest.recursive
  . exact hrest.tables
  . intro i
    rw [hrest.dir_eq, hone.dir_eq]
  . intro v hv hpage
    by_cases htail : v ∈ numbers pages
    . exact hrest.entry_unmapped v hv htail
    . rw [hrest.entry_other v hv htail]
      exact hone.entry_unmapped v hv (((hmem v).mp hpage).resolve_right htail)
  . intro v hv hother
    rw [hmem, not_or] at hother
    rw [hrest.entry_other v hv hother.2, hone.entry_other v hv hother.1]
  . intro frame
    rw [hrest.occupied_iff, hone.occupied_iff, and_assoc]
    apply and_congr_right
    intro _
    constructor
    . intro h v hpage hfrees
      by_cases hfirst : v ∈ numbers [page]
      . exact h.left v hfirst hfrees
      . apply h.right v (((hmem v).mp hpage).resolve_left hfirst)
        unfold Frees Releases
        rw [hone.entry_other v hfrees.1 hfirst, hone.maxPg_eq]
        exact hfrees
    . intro h
      refine ⟨fun v hpage => h v ((hmem v).mpr (Or.inl hpage)), fun v hpage hfrees => ?_⟩
      by_cases hfirst : v ∈ numbers [page]
      . -- the entry is empty by then
        obtain ⟨hv, hreleases⟩ := hfrees
        rw [hone.entry_unmapped v hv hfirst] at hreleases
        exact not_releases_zero frame hreleases
      . apply h v ((hmem v).mpr (Or.inr hpage))
        unfold Frees Releases at hfrees
        rw [hone.entry_other v hfrees.1 hfirst, hone.maxPg_eq] at hfrees
        exact hfrees
  . rw [hrest.maxPg_eq, hone.maxPg_eq]

theorem visitEach_unlocked (hrec : s.Recursive)
    (htables : ∀ i, i < 1023 → s.dir i = 0 ∨ isCached (s.dir i) = true) (pages : List Word)
    : ∃ s', visitEach vmmUnmapPage pages s = .ok () s' ∧ Unlocked s pages s' := by
  induction pages generalizing s with
  | nil => exact ⟨s, rfl, unlocked_refl hrec htables (fun v _ hpage => by contradiction)⟩
  | cons page pages ih =>
    obtain ⟨s₁, hresult, hone⟩ := unlockPage_unlocked hrec htables page
    obtain ⟨s', hresult', hrest⟩ := ih hone.recursive hone.tables
    refine ⟨s', ?_, hone.cons hrest⟩
    rw [visitEach, bind_ok _ hresult]
    exact hresult'

theorem unlockReservedMemory_unlocked (hrec : s.Recursive)
    (htables : ∀ i, i < 1023 → s.dir i = 0 ∨ isCached (s.dir i) = true) (mmaps : List MultibootMmapEntry)
    : ∃ s', unlockReservedMemory mmaps s = .ok () s' ∧ Unlocked s (reservedMemory.pages mmaps) s' := by
  unfold unlockReservedMemory
  rw [eachEntry_eq]
  exact visitEach_unlocked hrec htables _

end UnlockPage

end AwaOS
