import AwaOS.Lib.Sharing
import AwaOS.Vmm.AllocFailure
import AwaOS.Vmm.FirstFree

/-!
Ownership of frames in the mappings that the boot code leaves: the page tables are mapped into the kernel
image and the VGA buffer is mapped twice, but every other frame is referred to at most once.
-/

namespace AwaOS

namespace Machine

/--
Every frame that is referred to is marked as occupied, and only frames in `shared` are referred to twice.
-/
structure OwnedBut (shared : Nat → Prop) (s : Machine) : Prop extends s.Tabled where
  owns : OwnsBut shared s.refs s.pmm.occupied

variable {shared : Nat → Prop} {s s' : Machine}

theorem WellFormed.ownedBut (h : s.WellFormed) (hshared : ∀ frame, shared frame → s.pmm.occupied frame = true)
    : s.OwnedBut shared where
  toTabled := h.tabled
  owns := h.owns.ownsBut hshared

/--
That the page tables are marked as occupied is part of the ownership.
-/
theorem ownedBut_of_owns (hrec : s.Recursive) (htables : ∀ i, i < 1023 → s.dir i = 0 ∨ isCached (s.dir i) = true)
    (howns : OwnsBut shared s.refs s.pmm.occupied)
    : s.OwnedBut shared where
  toRecursive := hrec
  occupied := fun i hi hne => howns.used _ _ (refs_dir i hi hne)
  tables := htables
  owns := howns

/--
The slot of a page that is present.
-/
theorem Tabled.refs_entry (h : s.Tabled) {v : Nat} (hv : v < vpnEnd) (hcached : isCached (s.entry v) = true)
    : s.refs (.table (v / 1024) (v % 1024)) = some (frameOf (s.entry v)) := by
  have hdir : s.dir (v / 1024) ≠ 0 := by
    intro hzero
    rw [entry_of_absent hzero, isCached_zero] at hcached
    contradiction
  unfold vpnEnd at hv
  have hpresent := h.isCached_dir (by omega) hdir
  rw [entry_of_table hdir] at hcached ⊢
  exact refs_table _ _ (by omega) (by omega) hpresent hcached

theorem OwnedBut.allocated (h : s.OwnedBut shared) : s.allocated.OwnedBut shared where
  toTabled := h.toTabled.allocated
  owns := (h.owns.congr (refs_congr rfl rfl)).mono s.occupied_allocated

theorem OwnedBut.stray_nextFrame (h : s.OwnedBut shared) (hfound : (pmmAllocPage s.pmm).1 ≠ 0)
    : s.allocated.Stray s.nextFrame := by
  refine ⟨s.occupied_allocated_self hfound, ?_⟩
  intro slot
  rw [refs_congr rfl rfl slot]
  exact h.owns.unreferenced (pmmAllocPage_took s.pmm hfound).free slot

theorem OwnedBut.setTable (h : s.OwnedBut shared) (i j : Nat) (w : Word) (hi : i < 1023) (hj : j < 1024)
    (hpresent : isCached (s.dir i) = true) (hready : OwnsBut.Ready shared s.refs s.pmm.occupied (frameOf w))
    : (s.setTable i j w).OwnedBut shared where
  toTabled := h.toTabled.setTable i j w hi (ne_zero_of_isCached hpresent)
  owns := by
    apply h.owns.claim (.table i j) hready
    intro slot r hslot
    by_cases heq : slot = .table i j
    . right
      rw [heq, h.toRecursive.refs_setTable_self i j w hi hj hpresent] at hslot
      split at hslot
      . injection hslot with hframe
        exact ⟨heq, hframe.symm⟩
      . contradiction
    . left
      rw [h.toRecursive.refs_setTable_of_ne i j w hi (ne_zero_of_isCached hpresent) slot heq] at hslot
      exact hslot

theorem OwnedBut.installTable (h : s.OwnedBut shared) (i : Nat) (attr : Word) (hi : i < 1023)
    (hfound : (pmmAllocPage s.pmm).1 ≠ 0) (hattr : isCached attr = true)
    : (s.allocated.installTable i (s.newTable attr)).OwnedBut shared where
  toTabled := h.toTabled.installTable i attr hi hfound hattr
  owns := by
    apply h.allocated.owns.claim (.dir i) (Or.inr (h.stray_nextFrame hfound))
    intro slot r hslot
    have hrefs := h.allocated.toRecursive.refs_installTable i _ (h.toTabled.fresh_newTable hfound attr) slot r hslot
    unfold newTable at hrefs
    rw [frameOf_newL1Entry] at hrefs
    exact hrefs

/--
A stray frame is still one after a page table was made.
-/
theorem OwnedBut.stray_installTable (h : s.OwnedBut shared) (i : Nat) (attr : Word)
    (hfound : (pmmAllocPage s.pmm).1 ≠ 0) {frame : Nat} (hstray : s.Stray frame)
    : (s.allocated.installTable i (s.newTable attr)).Stray frame := by
  obtain ⟨hoccupied, hunref⟩ := hstray
  refine ⟨s.occupied_allocated _ hoccupied, ?_⟩
  intro slot hslot
  cases h.allocated.toRecursive.refs_installTable i _ (h.toTabled.fresh_newTable hfound attr) slot frame hslot with
  | inl hold =>
    rw [refs_congr rfl rfl] at hold
    exact hunref slot hold
  | inr hnew =>
    have hfree := (pmmAllocPage_took s.pmm hfound).free
    unfold newTable at hnew
    rw [frameOf_newL1Entry] at hnew
    rw [← hnew.2, hoccupied] at hfree
    contradiction

/--
An entry is cleared whose frame is not shared.
-/
theorem OwnedBut.clearTable (h : s.OwnedBut shared) (i j : Nat) (hi : i < 1023) (hj : j < 1024)
    (hpresent : isCached (s.dir i) = true)
    (hown : isCached (s.table i j) = true → ¬shared (frameOf (s.table i j)))
    : ((s.releasedEntry (s.table i j)).setTable i j 0).OwnedBut shared := by
  have hmem := s.releasedEntry_mem (s.table i j)
  have hcr3 := s.releasedEntry_cr3 (s.table i j)
  have hrec : (s.releasedEntry (s.table i j)).Recursive := h.toRecursive.congr hmem hcr3
  have hpresent' : isCached ((s.releasedEntry (s.table i j)).dir i) = true := by
    rw [dir_congr hmem hcr3]
    exact hpresent
  have hne := ne_zero_of_isCached hpresent'
  apply ownedBut_of_owns (hrec.setTable i j 0 hi hne)
  . intro k hk
    rw [hrec.dir_setTable i j 0 hi hne, dir_congr hmem hcr3]
    exact h.tables k hk
  . apply h.owns.drop (.table i j)
    . intro r hr
      obtain ⟨_, _, _, hcached, hframe⟩ := refs_table_eq_some.mp hr
      rw [← hframe]
      exact hown hcached
    . intro slot r hslot
      by_cases heq : slot = .table i j
      . rw [heq, hrec.refs_setTable_self i j 0 hi hj hpresent'] at hslot
        contradiction
      . rw [hrec.refs_setTable_of_ne i j 0 hi hne slot heq, refs_congr hmem hcr3] at hslot
        exact ⟨hslot, heq⟩
    . intro frame hframe hslot
      rw [pmm_setTable]
      cases hcached : isCached (s.table i j) with
      | false =>
        unfold releasedEntry
        rw [hcached, if_neg (by simp)]
        exact hframe
      | true =>
        rw [occupied_releasedEntry]
        . exact hframe
        . intro heq
          rw [refs_table i j hi hj hpresent hcached, heq] at hslot
          exact hslot rfl

theorem OwnedBut.released (h : s.OwnedBut shared) (page : Word) (hunref : Unreferenced s.refs (page >>> 12).toNat)
    (hown : ¬shared (page >>> 12).toNat)
    : (s.released page).OwnedBut shared := by
  refine @ownedBut_of_owns shared (s.released page) (h.toRecursive.congr rfl rfl) h.tables ?_
  rw [funext (refs_congr rfl rfl)]
  apply h.owns.release hunref hown
  intro frame hframe hne
  rw [occupied_released s page frame hne]
  exact hframe

end Machine

open Machine

variable {shared : Nat → Prop} {s s' : Machine} {vpn : Nat} {pa attr : Word}

theorem SameFrames.ownedBut (h : SameFrames s s') (hown : s.OwnedBut shared) : s'.OwnedBut shared := by
  apply ownedBut_of_owns (hown.toRecursive.congr h.mem h.cr3)
  . intro i hi
    rw [h.dir_eq]
    exact hown.tables i hi
  . rw [funext (refs_congr h.mem h.cr3), funext h.occupied]
    exact hown.owns

/--
A page is mapped to a shared frame, or to a stray one.
-/
theorem MapInternal.ownedBut (h : s.OwnedBut shared) (hvpn : vpn < vpnEnd) (hattr : isCached attr = true)
    (hready : OwnsBut.Ready shared s.refs s.pmm.occupied (pa >>> 12).toNat)
    (hcases : MapInternal s vpn pa attr false (.ok true s'))
    : s'.OwnedBut shared := by
  have hi : vpn / 1024 < 1023 := by
    unfold vpnEnd at hvpn
    omega
  have hj : vpn % 1024 < 1024 := by omega
  cases hcases with
  | made hdir hempty =>
    apply h.setTable _ _ _ hi hj (h.toTabled.isCached_dir hi hdir)
    rw [frameOf_newL2Entry]
    exact hready
  | madeTable hzero hfound =>
    apply (h.installTable (vpn / 1024) attr hi hfound hattr).setTable _ _ _ hi hj
    . rw [h.toTabled.dir_installTable (vpn / 1024) attr hfound, if_pos rfl, isCached_newTable, hattr]
    . rw [frameOf_newL2Entry]
      exact hready.imp_right (h.stray_installTable (vpn / 1024) attr hfound)
  | replaced _ hforced => contradiction

/--
From `s` to `s'`, the `n` pages from `vpn` on were unmapped.
-/
structure UnmappedBut (shared : Nat → Prop) (s : Machine) (vpn n : Nat) (s' : Machine) : Prop where
  ownedBut : s'.OwnedBut shared
  dir_eq : ∀ i, s'.dir i = s.dir i
  entry_eq : ∀ v, v < vpnEnd → s'.entry v = if vpn ≤ v ∧ v < vpn + n then 0 else s.entry v
  occupied : ∀ frame, s.pmm.occupied frame = true → (∀ m, m < n → frameOf (s.entry (vpn + m)) ≠ frame) →
    s'.pmm.occupied frame = true

/--
A page is unmapped whose frame is not shared.
-/
theorem vmmUnmapPage_unmappedBut (h : s.OwnedBut shared) {va : Word} (hva : va.toNat / 4096 < vpnEnd)
    (hown : isCached (s.entry (va.toNat / 4096)) = true → ¬shared (frameOf (s.entry (va.toNat / 4096))))
    : ∃ s', vmmUnmapPage va s = .ok () s' ∧ UnmappedBut shared s (va.toNat / 4096) 1 s' := by
  have hl2 := l2Index_lt va
  have hrange : ∀ v, va.toNat / 4096 ≤ v ∧ v < va.toNat / 4096 + 1 ↔ v = va.toNat / 4096 := by
    intro v
    omega
  have hcases := vmmUnmapPage_cases h.toSelfMapped va
  generalize vmmUnmapPage va s = r at hcases ⊢
  cases hcases with
  | guarded hguard =>
    have hslot := page_lt_vpnEnd_iff.mp hva
    omega
  | absent hslot hzero =>
    refine ⟨s, rfl, h, fun _ => rfl, ?_, fun _ hframe _ => hframe⟩
    intro v _
    split
    . next hin =>
      rw [(hrange v).mp hin, entry_va]
      unfold pte
      rw [if_pos hzero]
    . rfl
  | fault hslot hne e habsent =>
    rw [h.toTabled.isCached_dir hslot hne] at habsent
    contradiction
  | cleared hslot hpresent =>
    have hne := ne_zero_of_isCached hpresent
    have hentry : s.entry (va.toNat / 4096) = s.table (l1Index va) (l2Index va) := by
      rw [entry_va]
      unfold pte
      rw [if_neg hne]
    rw [hentry] at hown
    have hmem := s.releasedEntry_mem (s.table (l1Index va) (l2Index va))
    have hcr3 := s.releasedEntry_cr3 (s.table (l1Index va) (l2Index va))
    have hrec : (s.releasedEntry (s.table (l1Index va) (l2Index va))).Recursive := h.toRecursive.congr hmem hcr3
    have hne' : (s.releasedEntry (s.table (l1Index va) (l2Index va))).dir (l1Index va) ≠ 0 := by
      rw [dir_congr hmem hcr3]
      exact hne
    refine ⟨_, rfl, h.clearTable _ _ hslot hl2 hpresent hown, ?_, ?_, ?_⟩
    . intro i
      rw [hrec.dir_setTable _ _ 0 hslot hne', dir_congr hmem hcr3]
    . intro v hv
      have hindex : va.toNat / 4096 ≤ v ∧ v < va.toNat / 4096 + 1 ↔ v / 1024 = l1Index va
        ∧ v % 1024 = l2Index va := by
        rw [hrange, eq_of_index]
      rw [if_congr hindex rfl rfl]
      unfold vpnEnd at hv
      unfold entry
      rw [hrec.pte_setTable _ _ 0 hslot hne' _ _ (by omega), pte_congr hmem hcr3]
    . intro frame hframe hother
      rw [pmm_setTable, occupied_releasedEntry]
      . exact hframe
      . intro heq
        have hkept := hother 0 (by omega)
        rw [Nat.add_zero, hentry] at hkept
        exact hkept heq.symm

theorem vmmUnmapPages_unmappedBut (h : s.OwnedBut shared) (va : Word) (n : Nat)
    (hend : va.toNat / 4096 + n ≤ vpnEnd)
    (hown : ∀ m, m < n → isCached (s.entry (va.toNat / 4096 + m)) = true →
      ¬shared (frameOf (s.entry (va.toNat / 4096 + m))))
    : ∃ s', vmmUnmapPages va n s = .ok () s' ∧ UnmappedBut shared s (va.toNat / 4096) n s' := by
  induction n generalizing s va with
  | zero =>
    refine ⟨s, rfl, h, fun _ => rfl, ?_, fun _ hframe _ => hframe⟩
    intro v _
    rw [if_neg (by omega)]
  | succ n ih =>
    obtain ⟨s₁, hunmap, hone⟩ := vmmUnmapPage_unmappedBut h (show va.toNat / 4096 < vpnEnd by omega)
      (hown 0 (by omega))
    have hnext := next_page (show va.toNat / 4096 < vpnEnd by omega)
    have hrest :
        ∀ m, m < n → s₁.entry ((va + 0x1000).toNat / 4096 + m) = s.entry (va.toNat / 4096 + (m + 1)) := by
      intro m hm
      rw [hnext, Nat.add_assoc, Nat.add_comm 1 m, hone.entry_eq _ (by omega), if_neg (by omega)]
    obtain ⟨s', hunmaps, hmany⟩ := ih hone.ownedBut (va + 0x1000) (by omega)
      (fun m hm => by rw [hrest m hm]; exact hown (m + 1) (by omega))
    unfold vmmUnmapPages
    rw [bind_ok _ hunmap]
    refine ⟨s', hunmaps, hmany.ownedBut, ?_, ?_, ?_⟩
    . intro i
      rw [hmany.dir_eq, hone.dir_eq]
    . intro v hv
      rw [hmany.entry_eq v hv, hone.entry_eq v hv, hnext]
      split
      . rw [if_pos (by omega)]
      . split
        . rw [if_pos (by omega)]
        . rw [if_neg (by omega)]
    . intro frame hframe hother
      apply hmany.occupied frame
      . apply hone.occupied frame hframe
        intro m hm
        exact hother m (by omega)
      . intro m hm
        rw [hrest m hm]
        exact hother (m + 1) (by omega)

end AwaOS
