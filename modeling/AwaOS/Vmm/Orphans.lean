import AwaOS.Vmm.Entries

/-!
Frames in use that no entry refers to. A page that is mapped in full, and a page that is unmapped, leave
as many of them as there were.
-/

namespace AwaOS

namespace Machine

variable {s : Machine}

/--
A frame in use to which neither the directory nor a page table refers.
-/
def Stray (s : Machine) (frame : Nat) : Prop :=
  Orphan s.refs s.pmm.occupied frame

/--
The frame that the next call of `pmm_alloc_page` returns.
-/
def nextFrame (s : Machine) : Nat :=
  ((pmmAllocPage s.pmm).1 >>> 12).toNat

theorem stray_congr {s' : Machine} (hmem : s'.mem = s.mem) (hcr3 : s'.cr3 = s.cr3)
    (hoccupied : ∀ frame, s'.pmm.occupied frame = s.pmm.occupied frame) (frame : Nat)
    : s'.Stray frame ↔ s.Stray frame := by
  unfold Stray Orphan Unreferenced
  rw [hoccupied]
  simp only [refs_congr hmem hcr3]

theorem occupied_allocated_iff (hfound : (pmmAllocPage s.pmm).1 ≠ 0) (frame : Nat)
    : s.allocated.pmm.occupied frame = true ↔ s.pmm.occupied frame = true ∨ frame = s.nextFrame := by
  rw [pmm_allocated]
  unfold Pmm.occupied nextFrame
  rw [(pmmAllocPage_took s.pmm hfound).bitmap, Bitmap.test_set, Bool.or_eq_true, decide_eq_true_eq, or_comm]

theorem occupied_allocated_null (hnull : (pmmAllocPage s.pmm).1 = 0) (frame : Nat)
    : s.allocated.pmm.occupied frame = s.pmm.occupied frame := by
  rw [pmm_allocated]
  unfold Pmm.occupied
  rw [(pmmAllocPage_null s.pmm hnull).bitmap]

/--
A frame that was allocated is a stray at first.
-/
theorem Owned.stray_allocated (h : s.Owned) (hfound : (pmmAllocPage s.pmm).1 ≠ 0) (frame : Nat)
    : s.allocated.Stray frame ↔ s.Stray frame ∨ frame = s.nextFrame := by
  unfold Stray
  rw [funext (@refs_congr s s.allocated rfl rfl)]
  apply h.owns.orphan_take
  . exact (pmmAllocPage_took s.pmm hfound).free
  . exact occupied_allocated_iff hfound

/--
A frame that is put in an empty entry of a page table is a stray no more.
-/
theorem Recursive.stray_setTable (h : s.Recursive) {i j : Nat} {w : Word} (hi : i < 1023) (hj : j < 1024)
    (hpresent : isCached (s.dir i) = true) (hempty : s.table i j = 0) (hcached : isCached w = true)
    (frame : Nat)
    : (s.setTable i j w).Stray frame ↔ s.Stray frame ∧ frame ≠ frameOf w := by
  unfold Stray
  rw [pmm_setTable]
  apply Owns.orphan_claim (.table i j)
  . unfold refs
    dsimp only
    rw [hempty, isCached_zero, if_neg]
    simp
  . rw [h.refs_setTable_self i j w hi hj hpresent, if_pos hcached]
  . exact h.refs_setTable_of_ne i j w hi (ne_zero_of_isCached hpresent)

theorem Tabled.refs_installTable_of_ne (h : s.Tabled) {i : Nat} (attr : Word) (hi : i < 1023)
    (hzero : s.dir i = 0) (hfound : (pmmAllocPage s.pmm).1 ≠ 0) (slot : Slot) (hslot : slot ≠ .dir i)
    : (s.allocated.installTable i (s.newTable attr)).refs slot = s.refs slot := by
  have hfresh := h.fresh_newTable hfound attr
  have hdir := h.dir_installTable i attr hfound
  cases slot with
  | dir k =>
    have hki : k ≠ i := by
      intro heq
      rw [heq] at hslot
      exact hslot rfl
    have hk := hdir k
    rw [if_neg hki] at hk
    unfold refs
    dsimp only
    rw [hk]
  | table k l =>
    unfold refs
    dsimp only
    rw [hdir k]
    by_cases hki : k = i
    . subst hki
      have hbefore : ¬(k < 1023 ∧ l < 1024 ∧ isCached (s.dir k) = true ∧ isCached (s.table k l) = true) := by
        rw [hzero, isCached_zero]
        simp
      have hafter : ¬(k < 1023 ∧ l < 1024
          ∧ isCached (if k = k then s.newTable attr else s.dir k) = true
          ∧ isCached ((s.allocated.installTable k (s.newTable attr)).table k l) = true) := by
        rintro ⟨_, hl, _, hcached⟩
        rw [h.table_installTable k attr hi hfound l hl, isCached_zero] at hcached
        contradiction
      rw [if_neg hbefore, if_neg hafter]
    . rw [if_neg hki]
      by_cases hk : k < 1023 ∧ l < 1024 ∧ isCached (s.dir k) = true
      . obtain ⟨hk, hl, hpresent⟩ := hk
        have hword := h.allocated.toRecursive.table_installTable i _ hfresh k l hk
          (Or.inr (ne_zero_of_isCached hpresent)) hl
        rw [if_neg hki, table_allocated] at hword
        rw [hword]
      . rw [if_neg (fun hand => hk ⟨hand.1, hand.2.1, hand.2.2.1⟩),
          if_neg (fun hand => hk ⟨hand.1, hand.2.1, hand.2.2.1⟩)]

/--
A frame that was allocated for a page table is a stray no more when the table is installed.
-/
theorem WellFormed.stray_installTable (h : s.WellFormed) {i : Nat} (attr : Word) (hi : i < 1023)
    (hzero : s.dir i = 0) (hfound : (pmmAllocPage s.pmm).1 ≠ 0) (hattr : isCached attr = true) (frame : Nat)
    : (s.allocated.installTable i (s.newTable attr)).Stray frame ↔ s.Stray frame := by
  have hdir := h.tabled.dir_installTable i attr hfound i
  rw [if_pos rfl] at hdir
  have hne : s.newTable attr ≠ 0 := newTable_ne_zero hattr
  have hframe : frameOf (s.newTable attr) = s.nextFrame := frameOf_newL1Entry attr _
  have hclaim : Orphan (s.allocated.installTable i (s.newTable attr)).refs s.allocated.pmm.occupied frame
      ↔ Orphan s.refs s.allocated.pmm.occupied frame ∧ frame ≠ s.nextFrame := by
    apply Owns.orphan_claim (.dir i)
    . unfold refs
      dsimp only
      rw [if_neg (fun hand => hand.2 hzero)]
    . rw [refs_dir i (by omega) (by rw [hdir]; exact hne), hdir, hframe]
    . exact h.tabled.refs_installTable_of_ne attr hi hzero hfound
  have htake : Orphan s.refs s.allocated.pmm.occupied frame ↔ Orphan s.refs s.pmm.occupied frame
    ∨ frame = s.nextFrame :=
    h.owns.orphan_take (pmmAllocPage_took s.pmm hfound).free (occupied_allocated_iff hfound) frame
  have hfresh : Orphan s.refs s.pmm.occupied frame → frame ≠ s.nextFrame := by
    rintro ⟨hused, _⟩ heq
    have hfree : s.pmm.occupied s.nextFrame = false := (pmmAllocPage_took s.pmm hfound).free
    rw [heq, hfree] at hused
    contradiction
  unfold Stray
  rw [pmm_installTable, hclaim, htake]
  constructor
  . rintro ⟨hold | hnew, hne⟩
    . exact hold
    . exact absurd hnew hne
  . intro hold
    exact ⟨Or.inl hold, hfresh hold⟩

theorem occupied_released_iff (page : Word) (hpos : (page >>> 12).toNat ≠ 0)
    (hlt : (page >>> 12).toNat < s.pmm.maxPg) (frame : Nat)
    : (s.released page).pmm.occupied frame = true
        ↔
      s.pmm.occupied frame = true ∧ frame ≠ (page >>> 12).toNat := by
  rw [pmm_released]
  unfold pmmFreePage
  dsimp only
  rw [if_pos ⟨hpos, hlt⟩, occupied_pmmMarkPageFree, Bool.and_eq_true, decide_eq_true_eq, and_comm]

/--
The entry of a page table is cleared, and its frame is free again.
-/
theorem WellFormed.stray_clearTable (h : s.WellFormed) {i j : Nat} (hi : i < 1023) (hj : j < 1024)
    (hpresent : isCached (s.dir i) = true) (hcached : isCached (s.table i j) = true)
    (hpos : frameOf (s.table i j) ≠ 0) (hlt : frameOf (s.table i j) < s.pmm.maxPg) (frame : Nat)
    : ((s.releasedEntry (s.table i j)).setTable i j 0).Stray frame ↔ s.Stray frame := by
  have hmem := s.releasedEntry_mem (s.table i j)
  have hcr3 := s.releasedEntry_cr3 (s.table i j)
  have hrec : (s.releasedEntry (s.table i j)).Recursive := h.recursive.congr hmem hcr3
  have hpresent' : isCached ((s.releasedEntry (s.table i j)).dir i) = true := by
    rw [dir_congr hmem hcr3]
    exact hpresent
  unfold Stray
  rw [pmm_setTable]
  apply Owns.orphan_drop (.table i j) (refs_table i j hi hj hpresent hcached)
  . rw [hrec.refs_setTable_self i j 0 hi hj hpresent', isCached_zero, if_neg (by decide)]
  . intro slot hslot
    rw [hrec.refs_setTable_of_ne i j 0 hi (ne_zero_of_isCached hpresent') slot hslot, refs_congr hmem hcr3]
  . intro r
    unfold releasedEntry
    rw [if_pos hcached]
    unfold frameOf at *
    rw [← pgAlign_shift] at hpos hlt ⊢
    exact occupied_released_iff _ hpos hlt r

end Machine

end AwaOS
