import AwaOS.Boot.LockedPages
import AwaOS.Boot.UnlockMemory

/-!
When `unlock_reserved_memory` undoes `lock_reserved_memory`. It unmaps pages that were mapped before, and frees the
frames that it unmaps, although they were never allocated.
-/

namespace AwaOS

open Machine reservedMemory

/--
The pages for which there is no page table.
-/
def tableless (s : Machine) (pages : List Word) : List Word :=
  pages.filter (fun page => page.toNat / 4096 < vpnEnd ∧ s.dir (l1Index page) = 0)

/--
No page table is made while these pages are locked: no call of `pmm_alloc_page` succeeds.
-/
def NoTableMade (s : Machine) (pages : List Word) : Prop :=
  ∀ k, k < (tableless s pages).length → (pmmAllocPage (s.pmm.afterAllocs k)).1 = 0

section NoTableMade

variable {s s' : Machine} {page : Word} {pages : List Word}

theorem noTableMade_congr (hdir : ∀ i, s'.dir i = s.dir i) (hpmm : s'.pmm = s.pmm)
    : NoTableMade s' pages ↔ NoTableMade s pages := by
  have htableless : tableless s' pages = tableless s pages := by
    unfold tableless
    apply List.filter_congr
    intro page _
    rw [hdir]
  unfold NoTableMade
  rw [htableless, hpmm]

theorem noTableMade_cons_of_table (htable : page.toNat / 4096 < vpnEnd → s.dir (l1Index page) ≠ 0)
    : NoTableMade s (page :: pages) ↔ NoTableMade s pages := by
  have htableless : tableless s (page :: pages) = tableless s pages := by
    unfold tableless
    apply List.filter_cons_of_neg
    simpa using htable
  unfold NoTableMade
  rw [htableless]

theorem noTableMade_cons_of_none (hslot : page.toNat / 4096 < vpnEnd) (hzero : s.dir (l1Index page) = 0)
    : NoTableMade s (page :: pages) ↔ (pmmAllocPage s.pmm).1 = 0 ∧ NoTableMade s.allocated pages := by
  have htableless : tableless s (page :: pages) = page :: tableless s.allocated pages := by
    unfold tableless
    apply List.filter_cons_of_pos
    simpa using ⟨hslot, hzero⟩
  unfold NoTableMade
  rw [htableless, List.length_cons]
  constructor
  . intro h
    exact ⟨h 0 (Nat.zero_lt_succ _), fun k hk => h (k + 1) (Nat.succ_lt_succ hk)⟩
  . intro h k hk
    cases k with
    | zero => exact h.left
    | succ k => exact h.right k (Nat.lt_of_succ_lt_succ hk)

/--
The directory stays as it is if and only if no page table is made.
-/
theorem LockRun.dir_eq_iff (hrun : LockRun s pages s') (h : s.Tabled)
    : (∀ i, i < 1023 → s'.dir i = s.dir i) ↔ NoTableMade s pages := by
  induction hrun with
  | nil s => exact ⟨fun _ k hk => by contradiction, fun _ _ _ => rfl⟩
  | @cons s s₁ s' page pages _ hcases hrest ih =>
    have hone := hcases.locked h
    have hiff := ih hone.tabled
    cases hcases with
    | guarded hslot =>
      rw [noTableMade_cons_of_table (fun hbelow => absurd hbelow hslot)]
      exact hiff
    | internal hslot made _ hcases =>
      have hindex := (index_div page).1
      cases hcases with
      | noTable hzero hnull =>
        rw [hindex] at hzero
        rw [noTableMade_cons_of_none hslot hzero, and_iff_right hnull]
        exact hiff
      | taken hne _ =>
        rw [noTableMade_cons_of_table]
        . exact hiff
        . intro _ hzero
          rw [← hindex] at hzero
          exact hne (entry_of_absent hzero)
      | made hdir _ =>
        have hi : page.toNat / 4096 / 1024 < 1023 := by
          unfold vpnEnd at hslot
          omega
        have hsame := h.dir_setTable _ (page.toNat / 4096 % 1024) (newL2Entry pgPremR page) hi hdir
        rw [noTableMade_congr hsame (pmm_setTable s _ _ _)] at hiff
        rw [noTableMade_cons_of_table (fun _ => by rw [← hindex]; exact hdir), ← hiff]
        simp only [hsame]
      | madeTable hzero hfound =>
        -- the directory has a new entry, which stays
        have hi : page.toNat / 4096 / 1024 < 1023 := by
          unfold vpnEnd at hslot
          omega
        have hmade := h.madeEntry_installTable page pgPremR hslot hzero hfound (by decide)
        have hself := hmade.dir_self hzero
        have hne : s.newTable pgPremR ≠ 0 := newTable_ne_zero (by decide)
        constructor
        . intro hsame
          have hkept := (hrest.locked hone.tabled).dir_kept (page.toNat / 4096 / 1024) (by omega)
            (by rw [hself]; exact hne)
          rw [hsame _ hi, hself, hzero] at hkept
          exact absurd hkept.symm hne
        . intro hnone
          rw [hindex] at hzero
          exact absurd ((noTableMade_cons_of_none hslot hzero).mp hnone).1 hfound
      | replaced _ hforced => contradiction

end NoTableMade

/--
The frame has a bit in the bitmap, and a byte of a reserved entry.
-/
def ReservedFrame (mmaps : List MultibootMmapEntry) (frame : Nat) : Prop :=
  frame < 2 ^ 20 ∧ ∃ e ∈ mmaps, e.type ≠ multibootMemoryAvailable ∧ e.Touches frame

/--
What `vmm_lookup` returns for a page that is not mapped.
-/
def VMapping.unmapped : VMapping where
  pn := 0
  pa := 0
  flags := 0

/--
What is to hold between the state before `lock_reserved_memory` and the one after `unlock_reserved_memory`.
-/
structure Undone (mmaps : List MultibootMmapEntry) (s s' : Machine) : Prop where
  restored : ∀ va, vmmLookup va s = .ok .unmapped s → vmmLookup va s' = .ok .unmapped s'
  kept : ∀ va mapping, mapping ≠ .unmapped → vmmLookup va s = .ok mapping s → vmmLookup va s' = .ok mapping s'
  occupied : ∀ frame, ReservedFrame mmaps frame → s'.pmm.occupied frame = true

/--
No page that is locked was mapped before, no page table is made for it, and a page whose table is there has an
address whose frame is not reserved, or that `pmm_free_page` refuses.
-/
structure Undoable (mmaps : List MultibootMmapEntry) (s : Machine) : Prop where
  fresh : ∀ v, v < vpnEnd → v ∈ numbers (pages mmaps) → ¬s.Mapped v
  noTable : NoTableMade s (pages mmaps)
  frames : ∀ v, v < vpnEnd → v ∈ numbers (pages mmaps) → s.dir (v / 1024) ≠ 0 → v ≠ 0 → v < s.pmm.maxPg →
    ¬ReservedFrame mmaps v

section Undo

variable {mmaps : List MultibootMmapEntry} {s s' s'' : Machine}

theorem ofEntry_eq_unmapped {entry : Word} : VMapping.ofEntry entry = .unmapped ↔ entry = 0 := by
  unfold VMapping.ofEntry
  split
  . next hzero => exact ⟨fun _ => hzero, fun _ => rfl⟩
  . next hne =>
    constructor
    . intro h
      exact eq_zero_of_fields (congrArg VMapping.pa h) (congrArg VMapping.flags h)
    . intro hzero
      exact absurd hzero hne

/--
The page of the window that shows page table `i`.
-/
theorem index_l2Vaddr {i : Nat} (hi : i < 1024) : l1Index (l2Vaddr i) = 1023 ∧ l2Index (l2Vaddr i) = i := by
  rw [l1Index_eq, l2Index_eq, toNat_l2Vaddr i hi]
  omega

theorem Undone.fresh (h : s.Tabled) (hunlocked : Unlocked s' (pages mmaps) s'')
    (hundone : Undone mmaps s s'') {v : Nat}
    (hv : v < vpnEnd) (hmem : v ∈ numbers (pages mmaps))
    : ¬s.Mapped v := by
  intro hmapped
  obtain ⟨page, _, hpage⟩ := List.mem_map.mp hmem
  have hbefore := lookup_eq h.toSelfMapped h.tables page
  have hafter := lookup_eq hunlocked.recursive.toSelfMapped hunlocked.tables page
  rw [← entry_va, hpage] at hbefore hafter
  rw [hunlocked.entry_unmapped v hv hmem] at hafter
  have hkept := hundone.kept page _ (mt ofEntry_eq_unmapped.mp hmapped) hbefore
  rw [hafter] at hkept
  obtain ⟨heq, _⟩ := EStateM.Result.ok.inj hkept
  exact hmapped (ofEntry_eq_unmapped.mp heq.symm)

theorem Undone.dir_eq (h : s.Tabled) (hlocked : Locked s (pages mmaps) s')
    (hunlocked : Unlocked s' (pages mmaps) s'') (hundone : Undone mmaps s s'') {i : Nat} (hi : i < 1023)
    : s'.dir i = s.dir i := by
  by_cases hzero : s.dir i = 0
  . obtain ⟨hl1, hl2⟩ := index_l2Vaddr (show i < 1024 by omega)
    have hbefore := lookup_eq h.toSelfMapped h.tables (l2Vaddr i)
    have hafter := lookup_eq hunlocked.recursive.toSelfMapped hunlocked.tables (l2Vaddr i)
    rw [hl1, hl2, h.toSelfMapped.pte_window, hzero] at hbefore
    rw [hl1, hl2, hunlocked.recursive.toSelfMapped.pte_window, hunlocked.dir_eq] at hafter
    have hrestored := hundone.restored _ hbefore
    rw [hafter] at hrestored
    obtain ⟨heq, _⟩ := EStateM.Result.ok.inj hrestored
    rw [hzero]
    exact ofEntry_eq_unmapped.mp heq
  . exact hlocked.dir_kept i (by omega) hzero

/--
A page whose table was there was locked, so that its frame is freed.
-/
theorem Undone.frames (hlocked : Locked s (pages mmaps) s') (hunlocked : Unlocked s' (pages mmaps) s'')
    (hundone : Undone mmaps s s'') {v : Nat} (hv : v < vpnEnd) (hmem : v ∈ numbers (pages mmaps))
    (hfresh : ¬s.Mapped v) (hdir : s.dir (v / 1024) ≠ 0) (hpos : v ≠ 0) (hlt : v < s.pmm.maxPg)
    : ¬ReservedFrame mmaps v := by
  intro hreserved
  have hempty : s.entry v = 0 := not_not.mp hfresh
  have hmapped := hlocked.entry_made v hv hmem hdir
  have hentry : s'.entry v = lockedEntry v := by
    apply (hlocked.entry_locked v hv).resolve_left
    intro hsame
    rw [hsame] at hmapped
    exact hmapped hempty
  apply ((hunlocked.occupied_iff v).mp (hundone.occupied v hreserved)).2 v hmem
  unfold Frees Releases
  rw [hentry, hlocked.maxPg_eq]
  exact ⟨hv, isCached_lockedEntry v, frameOf_lockedEntry hv, hpos, hlt⟩

theorem Undoable.lookup_eq (h : s.Tabled) (hlocked : Locked s (pages mmaps) s')
    (hunlocked : Unlocked s' (pages mmaps) s'') (hundoable : Undoable mmaps s)
    (hdir : ∀ i, i < 1023 → s'.dir i = s.dir i) (va : Word)
    : ∃ mapping, vmmLookup va s = .ok mapping s ∧ vmmLookup va s'' = .ok mapping s'' := by
  have hentry : ∀ v, v < vpnEnd → s''.entry v = s.entry v := by
    intro v hv
    by_cases hmem : v ∈ numbers (pages mmaps)
    . rw [hunlocked.entry_unmapped v hv hmem]
      exact (not_not.mp (hundoable.fresh v hv hmem)).symm
    . rw [hunlocked.entry_other v hv hmem, hlocked.entry_other v hv hmem]
  have hkept : ∀ i, i < 1024 → s.dir i ≠ 0 → s''.dir i = s.dir i := by
    intro i hi hne
    rw [hunlocked.dir_eq, hlocked.dir_kept i hi hne]
  have hsame := sameLookup_of h.toSelfMapped h.tables hunlocked.recursive.toSelfMapped hunlocked.tables hkept va
    (fun hslot => hentry _ (page_lt_vpnEnd_iff.mpr hslot))
  cases hsame with
  | inl hsame => exact hsame
  | inr hnew =>
    obtain ⟨_, hi, hzero, hne⟩ := hnew
    rw [hunlocked.dir_eq, hdir _ hi] at hne
    exact absurd hzero hne

theorem Undoable.occupied (hlocked : Locked s (pages mmaps) s') (hunlocked : Unlocked s' (pages mmaps) s'')
    (hundoable : Undoable mmaps s) (hdir : ∀ i, i < 1023 → s'.dir i = s.dir i) {frame : Nat}
    (hreserved : ReservedFrame mmaps frame) (hoccupied : s.pmm.occupied frame = true)
    : s''.pmm.occupied frame = true := by
  apply (hunlocked.occupied_iff frame).mpr
  refine ⟨hlocked.occupied frame hoccupied, fun v hmem hfrees => ?_⟩
  obtain ⟨hv, hreleases⟩ := hfrees
  have hne : s'.entry v ≠ 0 := by
    intro hzero
    rw [hzero] at hreleases
    exact not_releases_zero frame hreleases
  have htable : s.dir (v / 1024) ≠ 0 := by
    rw [← hdir _ (by unfold vpnEnd at hv; omega)]
    exact fun hzero => hne (entry_of_absent hzero)
  cases hlocked.entry_locked v hv with
  | inl hsame =>
    rw [hsame] at hne
    exact hundoable.fresh v hv hmem hne
  | inr hentry =>
    obtain ⟨_, hframe, hpos, hlt⟩ := hreleases
    rw [hentry, frameOf_lockedEntry hv] at hframe
    rw [hlocked.maxPg_eq] at hlt
    rw [← hframe] at hpos hlt hreserved
    exact hundoable.frames v hv hmem htable hpos hlt hreserved

/--
Unlocking undoes locking if and only if this can be undone.
-/
theorem unlockReservedMemory_undoes_iff (h : s.Tabled)
    (hoccupied : ∀ frame, ReservedFrame mmaps frame → s.pmm.occupied frame = true)
    : ∃ s' s'', lockReservedMemory mmaps s = .ok () s' ∧ unlockReservedMemory mmaps s' = .ok () s''
        ∧ (Undone mmaps s s'' ↔ Undoable mmaps s) := by
  obtain ⟨s', hlock, hrun⟩ := lockReservedMemory_run h mmaps
  have hlocked := hrun.locked h
  have hdir := hrun.dir_eq_iff h
  obtain ⟨s'', hunlock, hunlocked⟩ :=
    unlockReservedMemory_unlocked hlocked.tabled.toRecursive hlocked.tabled.tables mmaps
  refine ⟨s', s'', hlock, hunlock, ?_, ?_⟩
  . intro hundone
    have hfresh : ∀ v, v < vpnEnd → v ∈ numbers (pages mmaps) → ¬s.Mapped v :=
      fun v hv hmem => hundone.fresh h hunlocked hv hmem
    constructor
    . exact hfresh
    . exact hdir.mp (fun i hi => hundone.dir_eq h hlocked hunlocked hi)
    . intro v hv hmem
      exact hundone.frames hlocked hunlocked hv hmem (hfresh v hv hmem)
  . intro hundoable
    have hsame := hdir.mpr hundoable.noTable
    have hlookup := hundoable.lookup_eq h hlocked hunlocked hsame
    constructor
    . intro va hbefore
      obtain ⟨mapping, hmapping, hafter⟩ := hlookup va
      rw [hbefore] at hmapping
      cases hmapping
      exact hafter
    . intro va mapping _ hbefore
      obtain ⟨mapping', hmapping, hafter⟩ := hlookup va
      rw [hbefore] at hmapping
      cases hmapping
      exact hafter
    . intro frame hreserved
      exact hundoable.occupied hlocked hunlocked hsame hreserved (hoccupied frame hreserved)

end Undo

/--
As `bootMachine`, but the frames 2 and 3 are marked as occupied too.
-/
def firmwareMachine : Machine :=
  bootMachine.setPmm {
    bootMachine.pmm with
    pmBitmap := fun group => if group = 0 then 0xF0#8 else 0xFF#8
  }

/--
The frame 3 is reserved.
-/
def firmwarePage : List MultibootMmapEntry :=
  [{ addrLow := 0x3000, addrHigh := 0, lenLow := 0x1000, lenHigh := 0, type := 2 }]

theorem wellFormed_firmwareMachine : firmwareMachine.WellFormed :=
  wellFormed_of_directory rfl rfl (by decide)

theorem reservedFrame_firmwarePage {frame : Nat} : ReservedFrame firmwarePage frame ↔ frame = 3 := by
  unfold ReservedFrame
  constructor
  . intro h
    obtain ⟨_, e, he, _, b, hge, hlt, hframe⟩ := h
    rw [List.mem_singleton.mp he] at hge hlt
    change 2 ^ 32 * 0 + 0x3000 ≤ b at hge
    change b < 2 ^ 32 * 0 + 0x3000 + (2 ^ 32 * 0 + 0x1000) at hlt
    omega
  . intro heq
    rw [heq]
    refine ⟨by decide, _, List.mem_singleton_self _, by decide, 0x3000, ?_, ?_, rfl⟩
    . change 2 ^ 32 * 0 + 0x3000 ≤ 0x3000
      omega
    . change 0x3000 < 2 ^ 32 * 0 + 0x3000 + (2 ^ 32 * 0 + 0x1000)
      omega

theorem occupied_firmwarePage (frame : Nat) (hreserved : ReservedFrame firmwarePage frame)
    : firmwareMachine.pmm.occupied frame = true := by
  rw [reservedFrame_firmwarePage.mp hreserved]
  decide

theorem unlockReservedMemory_undoes_iff_firmwarePage
    : ∃ s' s'', lockReservedMemory firmwarePage firmwareMachine = .ok () s'
        ∧ unlockReservedMemory firmwarePage s' = .ok () s''
        ∧ (Undone firmwarePage firmwareMachine s'' ↔ Undoable firmwarePage firmwareMachine) := by
  exact unlockReservedMemory_undoes_iff wellFormed_firmwareMachine.tabled occupied_firmwarePage

theorem supplies_firmwareMachine : firmwareMachine.pmm.Supplies 4 := by
  have hpool : firmwareMachine.pmm.Pool 4 := {
    le := by decide
    byteEnd_le := by decide
    taken := by
      have htaken : ∀ ppn, ppn < 4 → 1 ≤ ppn → firmwareMachine.pmm.occupied ppn = true := by decide
      exact fun ppn hge hlt => htaken ppn hlt hge
    free := by
      have hfree : ∀ ppn, ppn < 8 → 4 ≤ ppn → firmwareMachine.pmm.occupied ppn = false := by decide
      exact fun ppn hge hlt => hfree ppn hlt hge
  }
  exact hpool.supplies 4 (by decide)

/--
After unlocking, the reserved frame is free.
-/
theorem unlockReservedMemory_frees_firmwarePage
    : firmwareMachine.WellFormed
        ∧ (∀ frame, ReservedFrame firmwarePage frame → firmwareMachine.pmm.occupied frame = true)
        ∧ ∃ s' s'', lockReservedMemory firmwarePage firmwareMachine = .ok () s'
          ∧ unlockReservedMemory firmwarePage s' = .ok () s''
          ∧ s''.pmm.occupied 3 = false
          ∧ ¬Undone firmwarePage firmwareMachine s'' := by
  refine ⟨wellFormed_firmwareMachine, occupied_firmwarePage, ?_⟩
  have h := wellFormed_firmwareMachine.tabled
  have hmem : 3 ∈ numbers (pages firmwarePage) := by decide
  obtain ⟨s', hlock, hrun⟩ := lockReservedMemory_run h firmwarePage
  have hlocked := hrun.locked h
  have hmapped := hrun.mapped h ⟨fun _ _ => supplies_firmwareMachine.1, fun _ _ => trivial⟩
  obtain ⟨s'', hunlock, hunlocked⟩ :=
    unlockReservedMemory_unlocked hlocked.tabled.toRecursive hlocked.tabled.tables firmwarePage
  have hne := hmapped 3 (by decide) hmem
  have hempty : firmwareMachine.entry 3 = 0 :=
    not_not.mp (@not_mapped_of_directory firmwareMachine rfl rfl 3 (by decide))
  have hentry : s'.entry 3 = lockedEntry 3 := by
    apply (hlocked.entry_locked 3 (by decide)).resolve_left
    intro hsame
    rw [hsame] at hne
    exact hne hempty
  have hfree : s''.pmm.occupied 3 = false := by
    rw [← Bool.not_eq_true]
    intro hoccupied
    apply ((hunlocked.occupied_iff 3).mp hoccupied).2 3 hmem
    unfold Frees Releases
    rw [hentry, hlocked.maxPg_eq]
    exact ⟨by decide, by decide, by decide, by decide, by decide⟩
  refine ⟨s', s'', hlock, hunlock, hfree, fun hundone => ?_⟩
  have hoccupied := hundone.occupied 3 (reservedFrame_firmwarePage.mpr rfl)
  rw [hfree] at hoccupied
  contradiction

end AwaOS
