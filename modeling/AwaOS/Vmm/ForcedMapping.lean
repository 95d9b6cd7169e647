import AwaOS.Vmm.Rights

/-!
`vmm_fmap_page` frees the frame that was mapped before, and then it maps the new one. If these are the same
frame, then it is mapped and free.
-/

namespace AwaOS

open Machine

/--
Frame `frame` is freed when an entry of a page table is replaced.
-/
def Machine.Releases (s : Machine) (entry : Word) (frame : Nat) : Prop :=
  isCached entry = true ∧ frameOf entry = frame ∧ frame ≠ 0 ∧ frame < s.pmm.maxPg

/--
What `vmm_fmap_page` has done to the mapping and to the frames when it has mapped the page.
-/
structure KeepsFrames (s : Machine) (va pa attr : Word) (s' : Machine) : Prop where
  lookup : vmmLookup va s' = .ok { flags := (pgEntryFlags attr).setWidth 16, pa := pa, pn := pa >>> 12 } s'
  occupied : s'.pmm.occupied (pa >>> 12).toNat = true
  freed : ∀ frame, s.Releases (s.entry (va.toNat / 4096)) frame → frame ≠ (pa >>> 12).toNat →
    s'.pmm.occupied frame = false
  others : ∀ w : Word, w.toNat / 4096 ≠ va.toNat / 4096 → SameLookup s s' w
  kept : ∀ frame, frame ≠ (pa >>> 12).toNat → ¬s.Releases (s.entry (va.toNat / 4096)) frame →
    s'.pmm.occupied frame = s.pmm.occupied frame
      ∨ (NewTable s s' (l1Index va) ∧ frameOf (s'.dir (l1Index va)) = frame)

/--
What `vmm_fmap_page` is for.
-/
def ForcesMapping (s : Machine) (va pa attr : Word) : Prop :=
  ∀ r s', vmmFmapPage va pa attr s = .ok r s' → r ≠ 0 → KeepsFrames s va pa attr s'

section Releases

variable {s s' : Machine} {vpn : Nat} {va pa attr : Word}

theorem occupied_releasedEntry_iff (entry : Word) (frame : Nat)
    : (s.releasedEntry entry).pmm.occupied frame = true
        ↔
      s.pmm.occupied frame = true ∧ ¬s.Releases entry frame := by
  unfold releasedEntry Releases
  by_cases hcached : isCached entry = true
  . rw [if_pos hcached]
    have hnumber : (pgAlign entry >>> 12).toNat = frameOf entry := by
      rw [pgAlign_shift]
      rfl
    by_cases hbounds : frameOf entry ≠ 0 ∧ frameOf entry < s.pmm.maxPg
    . obtain ⟨hpos, hlt⟩ := hbounds
      rw [← hnumber] at hpos hlt
      rw [occupied_released_iff _ hpos hlt, hnumber]
      apply and_congr_right
      intro _
      constructor
      . intro hne hreleases
        exact hne hreleases.2.1.symm
      . intro hnot heq
        rw [hnumber, ← heq] at hpos hlt
        exact hnot ⟨hcached, heq.symm, hpos, hlt⟩
    . have hkept : s.released (pgAlign entry) = s := by
        unfold released pmmFreePage
        rw [hnumber]
        dsimp only
        rw [if_neg hbounds]
        rfl
      rw [hkept]
      constructor
      . intro hoccupied
        refine ⟨hoccupied, ?_⟩
        rintro ⟨_, heq, hpos, hlt⟩
        rw [← heq] at hpos hlt
        exact hbounds ⟨hpos, hlt⟩
      . exact And.left
  . rw [if_neg hcached]
    exact ⟨fun hoccupied => ⟨hoccupied, fun hreleases => hcached hreleases.1⟩, And.left⟩

theorem not_releases_zero (frame : Nat) : ¬s.Releases 0 frame := by
  rintro ⟨hcached, _⟩
  rw [isCached_zero] at hcached
  contradiction

/--
The page table is not new if the page had an entry.
-/
theorem Machine.Releases.not_newTable {frame : Nat} (hreleases : s.Releases (s.entry vpn) frame)
    : ¬NewTable s s' (vpn / 1024) := by
  rintro ⟨_, hzero, _⟩
  rw [entry_of_absent hzero] at hreleases
  exact not_releases_zero frame hreleases

/--
The frames in use after a forced mapping.
-/
theorem MapInternal.occupied_iff (h : s.Tabled) (hvpn : vpn < vpnEnd) (hattr : isCached attr = true)
    (hcases : MapInternal s vpn pa attr true (.ok true s')) (frame : Nat)
    : s'.pmm.occupied frame = true
        ↔
      (s.pmm.occupied frame = true ∧ ¬s.Releases (s.entry vpn) frame)
        ∨ (NewTable s s' (vpn / 1024) ∧ frameOf (s'.dir (vpn / 1024)) = frame) := by
  have hmade := hcases.madeEntry h hvpn hattr
  cases hcases with
  | made hdir hempty =>
    have hold : ∀ s', ¬NewTable s s' (vpn / 1024) := fun _ hnew => hdir hnew.2.1
    rw [pmm_setTable, hempty, or_iff_left (fun hand => hold _ hand.1), and_iff_left (not_releases_zero frame)]
  | madeTable hzero hfound =>
    have hself := hmade.dir_self hzero
    have hne : s.newTable attr ≠ 0 := newTable_ne_zero hattr
    have hnew : ∀ s', s'.dir (vpn / 1024) = s.newTable attr → NewTable s s' (vpn / 1024) := by
      intro s' heq
      rw [← heq] at hne
      exact ⟨by unfold vpnEnd at hvpn; omega, hzero, hne⟩
    have hframe : frameOf (s.newTable attr) = s.nextFrame := frameOf_newL1Entry attr _
    rw [hself, hframe, pmm_setTable, pmm_installTable, occupied_allocated_iff hfound, entry_of_absent hzero,
      and_iff_left (not_releases_zero frame), and_iff_right (hnew _ hself), @eq_comm _ frame]
  | replaced hne _ =>
    have hold : ∀ s', ¬NewTable s s' (vpn / 1024) := fun _ hnew => hne (entry_of_absent hnew.2.1)
    rw [pmm_setTable, or_iff_left (fun hand => hold _ hand.1)]
    exact occupied_releasedEntry_iff _ frame

end Releases

section ForcesMapping

variable {s s' : Machine} {va pa attr : Word}

theorem MapInternal.keepsFrames (h : s.Tabled) (hva : va.toNat / 4096 < vpnEnd) (hpa : pgOffset pa = 0)
    (hattr : isCached attr = true) (hoccupied : s.pmm.occupied (pa >>> 12).toNat = true)
    (hother : ¬s.Releases (s.entry (va.toNat / 4096)) (pa >>> 12).toNat)
    (hcases : MapInternal s (va.toNat / 4096) pa attr true (.ok true s'))
    : KeepsFrames s va pa attr s' := by
  have hbits := hcases.occupied_iff h hva hattr
  have hmade := hcases.madeEntry h hva hattr
  obtain ⟨hlookup, hothers⟩ := hmade.mapped h hpa hattr
  constructor
  . exact hlookup
  . rw [hbits]
    exact Or.inl ⟨hoccupied, hother⟩
  . intro frame hreleases _
    rw [← Bool.not_eq_true, hbits]
    rintro (hold | hnew)
    . exact hold.2 hreleases
    . exact hreleases.not_newTable hnew.1
  . exact hothers
  . intro frame _ hkept
    rw [← (index_div va).1]
    by_cases hnew : NewTable s s' (va.toNat / 4096 / 1024) ∧ frameOf (s'.dir (va.toNat / 4096 / 1024)) = frame
    . exact Or.inr hnew
    . left
      rw [Bool.eq_iff_iff, hbits, or_iff_left hnew, and_iff_left hkept]

/--
A page that has an entry is always mapped.
-/
theorem vmmFmapPage_replaced (h : s.Tabled) (hva : va.toNat / 4096 < vpnEnd) (hvane : va ≠ 0) (hpane : pa ≠ 0)
    (hattr : isCached attr = true) (hne : s.entry (va.toNat / 4096) ≠ 0)
    : ∃ s', vmmFmapPage va pa attr s = .ok (vAddr (l1Index va) (l2Index va) (pgOffset va)) s'
        ∧ MapInternal s (va.toNat / 4096) pa attr true (.ok true s') := by
  obtain ⟨made, s', hmap, hcases⟩ := vmmMapInternal_returns h hva pa attr hattr true
  unfold vmmFmapPage
  rw [if_neg (not_or.mpr ⟨hpane, hvane⟩), bind_ok _ hmap]
  cases made with
  | true => exact ⟨s', rfl, hcases⟩
  | false =>
    cases hcases with
    | noTable hzero => exact absurd (entry_of_absent hzero) hne
    | taken _ hforced => contradiction

end ForcesMapping

/--
`vmm_fmap_page` keeps the frames right if and only if it is not called for the frame that is mapped at `va`
already, unless `pmm_free_page` would not free this frame.
-/
theorem vmmFmapPage_forcesMapping_iff {s : Machine} (h : s.Tabled) {va pa attr : Word} (hva : pgOffset va = 0)
    (hvane : va ≠ 0) (hend : va.toNat < 0xFFC00000) (hpa : pgOffset pa = 0) (hpane : pa ≠ 0)
    (hoccupied : s.pmm.occupied (pa >>> 12).toNat = true) (hattr : hasFlags attr pgPresent = true)
    : ForcesMapping s va pa attr ↔ ¬s.Releases (s.entry (va.toNat / 4096)) (pa >>> 12).toNat := by
  have hcached : isCached attr = true := by rw [← hasFlags_pgPresent, hattr]
  have hbelow : va.toNat / 4096 < vpnEnd := by
    unfold vpnEnd
    omega
  constructor
  . intro hforces hreleases
    have hne : s.entry (va.toNat / 4096) ≠ 0 := ne_zero_of_isCached hreleases.1
    obtain ⟨s', hresult, hcases⟩ := vmmFmapPage_replaced h hbelow hvane hpane hcached hne
    have haddr : vAddr (l1Index va) (l2Index va) (pgOffset va) ≠ 0 := by
      have haddr := toNat_pageAddr hbelow hva
      rw [(index_div va).1, (index_div va).2, ← toNat_of_aligned hva] at haddr
      rw [BitVec.eq_of_toNat_eq haddr]
      exact hvane
    have hstill := (hforces _ s' hresult haddr).occupied
    rw [hcases.occupied_iff h hbelow hcached] at hstill
    cases hstill with
    | inl hold => exact hold.2 hreleases
    | inr hnew => exact hreleases.not_newTable hnew.1
  . intro hother r s' hresult hne
    obtain ⟨_, hcases⟩ := vmmFmapPage_mapInternal h hbelow hcached hresult hne
    exact hcases.keepsFrames h hbelow hpa hcached hoccupied hother

theorem vmmFmapPage_forcesMapping_lastPageMapped : ForcesMapping lastPageMapped 0x7FF000 0x5000 3 :=
  (vmmFmapPage_forcesMapping_iff tabled_lastPageMapped (by decide) (by decide) (by decide) (by decide) (by decide)
    (occupied_lastPageMapped _ (by decide)) (by decide)).mpr (by
      rintro ⟨_, hframe, _⟩
      exact absurd hframe (by decide))

/--
The frame of a page is mapped to the same page again, with other rights, and it is free then.
-/
theorem vmmFmapPage_frees_mapped_frame
    : ¬∀ (s : Machine) (va pa attr : Word), s.Tabled →
        (∀ v, v < vpnEnd → isCached (s.entry v) = true → s.pmm.occupied (frameOf (s.entry v)) = true) →
        pgOffset va = 0 → va ≠ 0 → va.toNat < 0xFFC00000 → pgOffset pa = 0 → pa ≠ 0 →
        s.pmm.occupied (pa >>> 12).toNat = true →
        (∀ i, i < 1024 → s.dir i ≠ 0 → frameOf (s.dir i) ≠ (pa >>> 12).toNat) →
        hasFlags attr pgPresent = true → ForcesMapping s va pa attr := by
  intro hall
  have hmapped : ∀ v, v < vpnEnd → isCached (lastPageMapped.entry v) = true →
      lastPageMapped.pmm.occupied (frameOf (lastPageMapped.entry v)) = true :=
    fun _ _ _ => occupied_lastPageMapped _ (frameOf_lt _)
  have htables : ∀ i, i < 1024 → lastPageMapped.dir i ≠ 0 →
    frameOf (lastPageMapped.dir i) ≠ ((0x3000 : Word) >>> 12).toNat := by
    intro i _ hne
    cases dir_lastPageMapped_ne hne with
    | inl hi =>
      rw [hi]
      decide
    | inr hi =>
      rw [hi]
      decide
  have hoccupied : lastPageMapped.pmm.occupied ((0x3000 : Word) >>> 12).toNat = true :=
    occupied_lastPageMapped _ (by decide)
  have hforces := hall lastPageMapped 0x7FF000 0x3000 1 tabled_lastPageMapped hmapped (by decide)
    (by decide) (by decide) (by decide) (by decide) hoccupied htables (by decide)
  rw [vmmFmapPage_forcesMapping_iff tabled_lastPageMapped (by decide) (by decide) (by decide) (by decide) (by decide)
    hoccupied (by decide)] at hforces
  exact hforces ⟨by decide, by decide, by decide, by decide⟩

end AwaOS
