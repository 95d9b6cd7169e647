import AwaOS.Lib.Ownership
import AwaOS.Vmm.Lemmas.MapPage

/-!
Who refers to a physical frame: the entries of the directory and the present entries of the page tables.
-/

namespace AwaOS

/--
The places in which a frame can be referred to. Entry 1023 of the directory refers to the directory.
-/
inductive Slot where
  | dir (i : Nat)
  | table (i j : Nat)
  deriving DecidableEq

namespace Machine

def refs (s : Machine) : Slot → Option Nat
  | .dir i =>
    if i < 1024 ∧ s.dir i ≠ 0 then
      some (frameOf (s.dir i))
    else
      none
  | .table i j =>
    if i < 1023 ∧ j < 1024 ∧ isCached (s.dir i) ∧ isCached (s.table i j) then
      some (frameOf (s.table i j))
    else
      none

/--
Every frame that is referred to is marked as occupied, and it is referred to only once.
-/
structure Owned (s : Machine) : Prop extends s.SelfMapped where
  owns : Owns s.refs s.pmm.occupied

variable {s : Machine}

theorem refs_dir (i : Nat) (hi : i < 1024) (hne : s.dir i ≠ 0)
    : s.refs (.dir i) = some (frameOf (s.dir i)) := by
  unfold refs
  dsimp only
  rw [if_pos ⟨hi, hne⟩]

theorem refs_table (i j : Nat) (hi : i < 1023) (hj : j < 1024) (hpresent : isCached (s.dir i) = true)
    (hcached : isCached (s.table i j) = true)
    : s.refs (.table i j) = some (frameOf (s.table i j)) := by
  unfold refs
  dsimp only
  rw [if_pos ⟨hi, hj, hpresent, hcached⟩]

theorem refs_dir_eq_some {i r : Nat}
    : s.refs (.dir i) = some r ↔ i < 1024 ∧ s.dir i ≠ 0 ∧ frameOf (s.dir i) = r := by
  simp only [refs, Option.ite_none_right_eq_some, Option.some.injEq, and_assoc]

theorem refs_table_eq_some {i j r : Nat}
    : s.refs (.table i j) = some r
        ↔
      i < 1023 ∧ j < 1024 ∧ isCached (s.dir i) = true ∧ isCached (s.table i j) = true
        ∧ frameOf (s.table i j) = r := by
  simp only [refs, Option.ite_none_right_eq_some, Option.some.injEq, and_assoc]

theorem Owned.recursive (h : s.Owned) : s.Recursive where
  toSelfMapped := h.toSelfMapped
  distinct := by
    intro i j hi hj hine hjne heq
    have hslots := h.owns.unique (.dir i) (.dir j) (frameOf (s.dir i)) (refs_dir i hi hine)
      (by rw [heq, refs_dir j hj hjne])
    injection hslots

theorem Owned.tablesOccupied (h : s.Owned) : s.TablesOccupied := by
  intro i hi hne
  exact h.owns.used _ _ (refs_dir i hi hne)

theorem refs_congr {s' : Machine} (hmem : s'.mem = s.mem) (hcr3 : s'.cr3 = s.cr3) (slot : Slot)
    : s'.refs slot = s.refs slot := by
  cases slot with
  | dir i =>
    unfold refs
    dsimp only
    rw [dir_congr hmem hcr3]
  | table i j =>
    unfold refs
    dsimp only
    rw [dir_congr hmem hcr3, table_congr hmem hcr3]

section SetTable

variable (i j : Nat) (w : Word)

theorem Recursive.refs_setTable_of_ne (h : s.Recursive) (hi : i < 1023) (hne : s.dir i ≠ 0) (slot : Slot)
    (hslot : slot ≠ .table i j)
    : (s.setTable i j w).refs slot = s.refs slot := by
  cases slot with
  | dir k =>
    unfold refs
    dsimp only
    rw [h.dir_setTable i j w hi hne]
  | table k l =>
    unfold refs
    dsimp only
    rw [h.dir_setTable i j w hi hne]
    by_cases hk : k < 1023 ∧ isCached (s.dir k) = true
    . have hword := h.table_setTable i j w hi hne k l (by omega) (ne_zero_of_isCached hk.2)
      have hother : ¬(k = i ∧ l = j) := by
        rintro ⟨rfl, rfl⟩
        exact hslot rfl
      rw [if_neg hother] at hword
      rw [hword]
    . rw [if_neg (fun hand => hk ⟨hand.1, hand.2.2.1⟩), if_neg (fun hand => hk ⟨hand.1, hand.2.2.1⟩)]

theorem Recursive.refs_setTable_self (h : s.Recursive) (hi : i < 1023) (hj : j < 1024)
    (hpresent : isCached (s.dir i) = true)
    : (s.setTable i j w).refs (.table i j) = if isCached w then some (frameOf w) else none := by
  have hne := ne_zero_of_isCached hpresent
  unfold refs
  dsimp only
  have hword := h.table_setTable i j w hi hne i j (by omega) hne
  rw [if_pos ⟨rfl, rfl⟩] at hword
  rw [h.dir_setTable i j w hi hne, hword]
  simp only [hi, hj, hpresent, true_and]

end SetTable

/--
A frame is put in an empty entry of a page table.
-/
theorem Owned.setTable (h : s.Owned) (i j : Nat) (w : Word) (hi : i < 1023) (hj : j < 1024)
    (hpresent : isCached (s.dir i) = true) (hoccupied : s.pmm.occupied (frameOf w) = true)
    (hunref : Unreferenced s.refs (frameOf w))
    : (s.setTable i j w).Owned where
  toSelfMapped := (h.recursive.setTable i j w hi (ne_zero_of_isCached hpresent)).toSelfMapped
  owns := by
    apply h.owns.claim (.table i j) hunref hoccupied
    intro slot r hslot
    by_cases heq : slot = .table i j
    . right
      rw [heq, h.recursive.refs_setTable_self i j w hi hj hpresent] at hslot
      split at hslot
      . injection hslot with hframe
        exact ⟨heq, hframe.symm⟩
      . contradiction
    . left
      rw [h.recursive.refs_setTable_of_ne i j w hi (ne_zero_of_isCached hpresent) slot heq] at hslot
      exact hslot

theorem occupied_released (s : Machine) (page : Word) (frame : Nat) (hne : frame ≠ (page >>> 12).toNat)
    : (s.released page).pmm.occupied frame = s.pmm.occupied frame := by
  rw [pmm_released]
  unfold pmmFreePage
  dsimp only
  split
  . rw [occupied_pmmMarkPageFree, decide_eq_true hne, Bool.true_and]
  . rfl

theorem occupied_releasedEntry (s : Machine) (entry : Word) (frame : Nat) (hne : frame ≠ frameOf entry)
    : (s.releasedEntry entry).pmm.occupied frame = s.pmm.occupied frame := by
  unfold releasedEntry
  split
  . apply s.occupied_released
    rw [pgAlign_shift]
    exact hne
  . rfl

/--
An entry of a page table is cleared and its frame is freed.
-/
theorem Owned.clearTable (h : s.Owned) (i j : Nat) (hi : i < 1023) (hj : j < 1024)
    (hpresent : isCached (s.dir i) = true)
    : ((s.releasedEntry (s.table i j)).setTable i j 0).Owned := by
  have hmem := s.releasedEntry_mem (s.table i j)
  have hcr3 := s.releasedEntry_cr3 (s.table i j)
  have hrec : (s.releasedEntry (s.table i j)).Recursive := h.recursive.congr hmem hcr3
  have hpresent' : isCached ((s.releasedEntry (s.table i j)).dir i) = true := by
    rw [dir_congr hmem hcr3]
    exact hpresent
  constructor
  . exact (hrec.setTable i j 0 hi (ne_zero_of_isCached hpresent')).toSelfMapped
  . apply h.owns.drop (.table i j)
    . intro slot r hslot
      by_cases heq : slot = .table i j
      . rw [heq, hrec.refs_setTable_self i j 0 hi hj hpresent'] at hslot
        contradiction
      . rw [hrec.refs_setTable_of_ne i j 0 hi (ne_zero_of_isCached hpresent') slot heq,
          refs_congr hmem hcr3] at hslot
        exact ⟨hslot, heq⟩
    . intro frame hframe hne
      rw [pmm_setTable]
      cases hcached : isCached (s.table i j) with
      | false =>
        unfold releasedEntry
        rw [hcached, if_neg (by simp)]
        exact hframe
      | true =>
        rw [occupied_releasedEntry]
        . exact hframe
        . intro heq
          rw [refs_table i j hi hj hpresent hcached, heq] at hne
          exact hne rfl

theorem Owned.allocated (h : s.Owned) : s.allocated.Owned where
  toSelfMapped := h.toSelfMapped.congr rfl rfl
  owns := (h.owns.congr (refs_congr rfl rfl)).mono s.occupied_allocated

theorem Owned.unreferenced_page (h : s.Owned) (hfound : (pmmAllocPage s.pmm).1 ≠ 0)
    : Unreferenced s.allocated.refs ((pmmAllocPage s.pmm).1 >>> 12).toNat := by
  intro slot
  rw [refs_congr rfl rfl slot]
  exact h.owns.unreferenced (pmmAllocPage_took s.pmm hfound).free slot

theorem Recursive.refs_installTable (h : s.Recursive) (i : Nat) (w : Word) (hfresh : s.Fresh (frameOf w))
    (slot : Slot) (r : Nat) (hslot : (s.installTable i w).refs slot = some r)
    : s.refs slot = some r ∨ (slot = .dir i ∧ r = frameOf w) := by
  cases slot with
  | dir k =>
    rw [refs_dir_eq_some, h.dir_installTable i w hfresh] at hslot
    obtain ⟨hk, hne, hframe⟩ := hslot
    by_cases hki : k = i
    . right
      rw [if_pos hki] at hframe
      rw [hki]
      exact ⟨rfl, hframe.symm⟩
    . left
      rw [if_neg hki] at hne hframe
      exact refs_dir_eq_some.mpr ⟨hk, hne, hframe⟩
  | table k l =>
    left
    rw [refs_table_eq_some, h.dir_installTable i w hfresh] at hslot
    obtain ⟨hk, hl, hpresent, hcached, hframe⟩ := hslot
    by_cases hki : k = i
    . rw [h.table_installTable i w hfresh k l hk (Or.inl hki) hl, if_pos hki] at hcached
      contradiction
    . rw [if_neg hki] at hpresent
      have hword := h.table_installTable i w hfresh k l hk (Or.inr (ne_zero_of_isCached hpresent)) hl
      rw [if_neg hki] at hword
      rw [hword] at hcached hframe
      exact refs_table_eq_some.mpr ⟨hk, hl, hpresent, hcached, hframe⟩

/--
A frame that was free becomes a page table.
-/
theorem Owned.installTable (h : s.Owned) (i : Nat) (attr : Word) (hi : i < 1023)
    (hfound : (pmmAllocPage s.pmm).1 ≠ 0)
    : (s.allocated.installTable i (newL1Entry attr (pmmAllocPage s.pmm).1)).Owned := by
  have hrec := h.allocated.recursive
  have hfresh : s.allocated.Fresh (frameOf (newL1Entry attr (pmmAllocPage s.pmm).1)) :=
    h.tablesOccupied.fresh_newL1Entry hfound attr
  constructor
  . exact (hrec.installTable i _ hi hfresh).toSelfMapped
  . apply h.allocated.owns.claim (.dir i) (h.unreferenced_page hfound) (s.occupied_allocated_self hfound)
    intro slot r hslot
    have hrefs := hrec.refs_installTable i _ hfresh slot r hslot
    rw [frameOf_newL1Entry] at hrefs
    exact hrefs

/--
A frame in use that no entry refers to is not referred to after a table was made either.
-/
theorem Owned.unreferenced_installTable (h : s.Owned) (i : Nat) (attr : Word)
    (hfound : (pmmAllocPage s.pmm).1 ≠ 0) (frame : Nat) (hoccupied : s.pmm.occupied frame = true)
    (hunref : Unreferenced s.refs frame)
    : Unreferenced (s.allocated.installTable i (newL1Entry attr (pmmAllocPage s.pmm).1)).refs frame := by
  have hfresh : s.allocated.Fresh (frameOf (newL1Entry attr (pmmAllocPage s.pmm).1)) :=
    h.tablesOccupied.fresh_newL1Entry hfound attr
  intro slot hslot
  cases h.allocated.recursive.refs_installTable i _ hfresh slot frame hslot with
  | inl hold =>
    rw [refs_congr rfl rfl] at hold
    exact hunref slot hold
  | inr hnew =>
    have hfree := (pmmAllocPage_took s.pmm hfound).free
    rw [frameOf_newL1Entry] at hnew
    rw [← hnew.2, hoccupied] at hfree
    contradiction

end Machine

open Machine

theorem vmmMapInternal_owned {s : Machine} (h : s.Owned) (i j : Nat) (hi : i < 1023) (hj : j < 1024)
    (pa attr : Word) (hattr : isCached attr = true) (hoccupied : s.pmm.occupied (pa >>> 12).toNat = true)
    (hunref : Unreferenced s.refs (pa >>> 12).toNat)
    : (finalState (vmmMapInternal i j pa attr false s)).Owned := by
  have hentry : ∀ s₁, s₁.Owned → s₁.pmm.occupied (pa >>> 12).toNat = true →
      Unreferenced s₁.refs (pa >>> 12).toNat →
      (finalState (vmmMapInternal.makeEntry i j pa attr false s₁)).Owned := by
    intro s₁ h₁ hoccupied₁ hunref₁
    have hcases := vmmMapInternal.makeEntry_cases h₁.toSelfMapped i j (by omega) hj pa attr false
    generalize vmmMapInternal.makeEntry i j pa attr false s₁ = r at hcases ⊢
    cases hcases with
    | fault habsent => exact h₁
    | taken hpresent hne hforced => exact h₁
    | made hpresent hempty =>
      apply h₁.setTable i j _ hi hj hpresent
      . rw [frameOf_newL2Entry]
        exact hoccupied₁
      . rw [frameOf_newL2Entry]
        exact hunref₁
    | forced hpresent hne hforced => contradiction
  have htable := vmmMapInternal.makeTable_cases h.toSelfMapped h.tablesOccupied i (by omega) attr
  rw [vmmMapInternal_eq]
  generalize vmmMapInternal.makeTable i attr s = r at htable ⊢
  cases htable with
  | kept hne => exact hentry s h hoccupied hunref
  | null hzero hnull => exact h.allocated
  | made hzero hfound hattr =>
    apply hentry _ (h.installTable i attr hi hfound)
    . exact s.occupied_allocated _ hoccupied
    . exact h.unreferenced_installTable i attr hfound _ hoccupied hunref
  | fault hzero hfound habsent =>
    rw [hattr] at habsent
    contradiction

theorem vmmUnmapPage_owned {s : Machine} (h : s.Owned) (va : Word)
    : (finalState (vmmUnmapPage va s)).Owned := by
  have hcases := vmmUnmapPage_cases h.toSelfMapped va
  generalize vmmUnmapPage va s = r at hcases ⊢
  cases hcases with
  | guarded hslot => exact h
  | absent hslot hzero => exact h
  | fault hslot hne e habsent => exact h
  | cleared hslot hpresent => exact h.clearTable _ _ hslot (l2Index_lt va) hpresent

theorem vmmUnmapPages_owned {s : Machine} (h : s.Owned) (va : Word) (count : Nat)
    : (finalState (vmmUnmapPages va count s)).Owned := by
  induction count generalizing s va with
  | zero => exact h
  | succ count ih =>
    have hunmapped := vmmUnmapPage_owned h va
    unfold vmmUnmapPages
    cases hunmap : vmmUnmapPage va s with
    | error e s' =>
      rw [hunmap] at hunmapped
      rw [bind_error _ hunmap]
      exact hunmapped
    | ok _ s' =>
      rw [hunmap] at hunmapped
      rw [bind_ok _ hunmap]
      exact ih hunmapped _

theorem mapNext_owned {s : Machine} (h : s.Owned) (va attr : Word) (hslot : l1Index va < 1023)
    (hattr : isCached attr = true)
    : (finalState (vmmAllocPages.mapNext va attr s)).Owned := by
  unfold vmmAllocPages.mapNext
  rw [bind_ok _ (callPmmAllocPage_eq s)]
  by_cases hnull : (pmmAllocPage s.pmm).1 = 0
  . rw [if_pos hnull]
    exact h.allocated
  . rw [if_neg hnull]
    exact vmmMapInternal_owned h.allocated _ _ hslot (l2Index_lt va) _ attr hattr
      (s.occupied_allocated_self hnull) (h.unreferenced_page hnull)

/--
The loop of `vmm_alloc_pages`, with the pages that were mapped before it fails unmapped again.
-/
theorem vmmAllocPages_go_owned {s : Machine} (h : s.Owned) (va attr : Word) (hattr : isCached attr = true)
    (i : Nat) (va_ : Word) (count : Nat) (hslot : ∀ k, k < count → l1Index (pageAt va_ k) < 1023)
    : (finalState (vmmAllocPages.go va attr i va_ count s)).Owned := by
  induction count generalizing s i va_ with
  | zero => exact h
  | succ count ih =>
    have hfirst := hslot 0 (by omega)
    rw [pageAt_zero] at hfirst
    have hnext := mapNext_owned h va_ attr hfirst hattr
    unfold vmmAllocPages.go
    cases hresult : vmmAllocPages.mapNext va_ attr s with
    | error e s' =>
      rw [hresult] at hnext
      rw [bind_error _ hresult]
      exact hnext
    | ok mapped s' =>
      rw [hresult] at hnext
      rw [bind_ok _ hresult]
      cases mapped with
      | true =>
        apply ih hnext
        intro k hk
        rw [pageAt_succ]
        exact hslot (k + 1) (by omega)
      | false =>
        simp only [Bool.not_false, ↓reduceIte]
        rw [finalState_bind (fun _ _ => rfl)]
        exact vmmUnmapPages_owned hnext va i

theorem l1Index_pageAt (va sz : Word) (hbelow : va.toNat + sz.toNat ≤ 0xFFC00000) (k : Nat)
    (hk : k < (sz >>> 12).toNat)
    : l1Index (pageAt va k) < 1023 := by
  rw [BitVec.toNat_ushiftRight, Nat.shiftRight_eq_div_pow] at hk
  have haddr : (pageAt va k).toNat = va.toNat + 4096 * k := by
    rw [pageAt, BitVec.toNat_add, BitVec.toNat_ofNat]
    omega
  rw [l1Index_eq, haddr]
  omega

theorem vmmAllocPages_owned {s : Machine} (h : s.Owned) (va sz attr : Word) (hattr : isCached attr = true)
    (hbelow : va.toNat + sz.toNat ≤ 0xFFC00000)
    : (finalState (vmmAllocPages va sz attr s)).Owned :=
  vmmAllocPages_go_owned h va attr hattr 0 va _ (l1Index_pageAt va sz hbelow)

/--
A run of `vmm_alloc_pages` below the last entry of the directory and `vmm_unmap_page`. A call may fail,
and it may fault.
-/
inductive AllocRun (s₀ : Machine) : Machine → Prop
  | start : AllocRun s₀ s₀
  | allocPages {s : Machine} (hrun : AllocRun s₀ s) (va sz attr : Word)
      (hattr : hasFlags attr pgPresent = true) (hbelow : va.toNat + sz.toNat ≤ 0xFFC00000)
      : AllocRun s₀ (finalState (vmmAllocPages va sz attr s))
  | unmapPage {s : Machine} (hrun : AllocRun s₀ s) (va : Word) : AllocRun s₀ (finalState (vmmUnmapPage va s))

theorem AllocRun.owned {s₀ s : Machine} (hrun : AllocRun s₀ s) (h : s₀.Owned) : s.Owned := by
  induction hrun with
  | start => exact h
  | allocPages hrun va sz attr hattr hbelow ih =>
    rw [hasFlags_pgPresent] at hattr
    exact vmmAllocPages_owned ih va sz attr hattr hbelow
  | unmapPage hrun va ih => exact vmmUnmapPage_owned ih va

/--
In every run the frame of a mapped page is occupied, and it is neither the frame of another page nor that
of a page table.
-/
theorem frames_owned {s₀ s : Machine} (h : s₀.Owned) (hrun : AllocRun s₀ s)
    : s.Owned
        ∧
      ∀ i j, i < 1023 → j < 1024 → isCached (s.dir i) = true → isCached (s.table i j) = true →
        s.pmm.occupied (frameOf (s.table i j)) = true
          ∧ (∀ k l, k < 1023 → l < 1024 → isCached (s.dir k) = true → isCached (s.table k l) = true →
              frameOf (s.table k l) = frameOf (s.table i j) → k = i ∧ l = j)
          ∧ ∀ k, k < 1024 → s.dir k ≠ 0 → frameOf (s.dir k) ≠ frameOf (s.table i j) := by
  have howned := hrun.owned h
  refine ⟨howned, ?_⟩
  intro i j hi hj hpresent hcached
  have hrefs := refs_table i j hi hj hpresent hcached
  refine ⟨howned.owns.used _ _ hrefs, ?_, ?_⟩
  . intro k l hk hl hpresent' hcached' heq
    have hrefs' := refs_table k l hk hl hpresent' hcached'
    rw [heq] at hrefs'
    have hslots := howned.owns.unique _ _ _ hrefs' hrefs
    injection hslots with hki hlj
    exact ⟨hki, hlj⟩
  . intro k hk hne heq
    have hrefs' := refs_dir k hk hne
    rw [heq] at hrefs'
    have hslots := howned.owns.unique _ _ _ hrefs' hrefs
    contradiction

/--
A directory in frame 1 without any page table, and a physical memory without free frames.
-/
def directoryOnly : Machine where
  mem frame index := if frame = 1 ∧ index = 1023 then 0x1013 else 0
  cr3 := 1
  pmm := pmmInit (fun _ => 0) 0x8000
  nullReturned := false

theorem dir_directoryOnly (i : Nat) : directoryOnly.dir i = if i = 1023 then 0x1013 else 0 := by
  simp [directoryOnly, dir]

theorem refs_directoryOnly {slot : Slot} {r : Nat} (h : directoryOnly.refs slot = some r)
    : slot = .dir 1023 ∧ r = 1 := by
  cases slot with
  | dir i =>
    rw [refs_dir_eq_some, dir_directoryOnly] at h
    obtain ⟨_, hne, hframe⟩ := h
    split at hne
    . next hi =>
      rw [if_pos hi] at hframe
      subst hi hframe
      exact ⟨rfl, by decide⟩
    . contradiction
  | table i j =>
    rw [refs_table_eq_some, dir_directoryOnly] at h
    obtain ⟨hi, _, hpresent, _⟩ := h
    rw [if_neg (by omega)] at hpresent
    contradiction

/--
A machine whose memory holds nothing but a directory without page tables.
-/
theorem owned_of_directory {s : Machine} (hmem : s.mem = directoryOnly.mem) (hcr3 : s.cr3 = directoryOnly.cr3)
    (hoccupied : s.pmm.occupied 1 = true)
    : s.Owned where
  toSelfMapped := SelfMapped.congr ⟨by decide, by decide⟩ hmem hcr3
  owns := {
    used := by
      intro slot r h
      rw [refs_congr hmem hcr3] at h
      rw [(refs_directoryOnly h).2]
      exact hoccupied
    unique := by
      intro slot slot' r h h'
      rw [refs_congr hmem hcr3] at h h'
      rw [(refs_directoryOnly h).1, (refs_directoryOnly h').1]
  }

theorem owned_directoryOnly : directoryOnly.Owned :=
  owned_of_directory rfl rfl (occupied_pmmInit (fun _ => 0) 0x8000 1 (by decide))

/--
A machine with a directory in frame 1 and free frames 2 to 7.
-/
def bootMachine : Machine :=
  {
    directoryOnly with
    pmm := {
      pmBitmap := fun group => if group = 0 then 0xC0#8 else 0xFF#8
      maxPg := 8
      pgLookupPtr := Pmm.lookupStart
      maxPg_lt := by decide
      pgLookupPtr_pos := Pmm.lookupStart_pos
    }
  }

/--
A directory without page tables, and one free frame.
-/
def oneFrameLeft : Machine :=
  {
    directoryOnly with
    pmm := {
      pmBitmap := fun group => if group = 0 then 0xFE#8 else 0xFF#8
      maxPg := 8
      pgLookupPtr := Pmm.lookupStart
      maxPg_lt := by decide
      pgLookupPtr_pos := Pmm.lookupStart_pos
    }
  }

theorem owned_bootMachine : bootMachine.Owned :=
  owned_of_directory rfl rfl (by decide)

/--
The first mapping of a region, which makes the page table.
-/
theorem vmmMapInternal_first {s : Machine} (h : s.Owned) {i j : Nat} (hi : i < 1023) (hj : j < 1024) (pa : Word)
    {attr : Word} (hattr : isCached attr = true) (hzero : s.dir i = 0) (hfound : (pmmAllocPage s.pmm).1 ≠ 0)
    : vmmMapInternal i j pa attr false s
        =
      .ok true
        ((s.allocated.installTable i (newL1Entry attr (pmmAllocPage s.pmm).1)).setTable i j
          (newL2Entry attr pa)) := by
  have hfresh : s.allocated.Fresh (frameOf (newL1Entry attr (pmmAllocPage s.pmm).1)) :=
    h.tablesOccupied.fresh_newL1Entry hfound attr
  have hrec := h.allocated.recursive
  have hself := (h.installTable i attr hi hfound).toSelfMapped
  generalize hinstalled : s.allocated.installTable i (newL1Entry attr (pmmAllocPage s.pmm).1) = s₁ at hself
  have htable : vmmMapInternal.makeTable i attr s = .ok true s₁ := by
    have hcases := vmmMapInternal.makeTable_cases h.toSelfMapped h.tablesOccupied i (by omega) attr
    rw [← hinstalled]
    generalize vmmMapInternal.makeTable i attr s = r at hcases ⊢
    cases hcases with
    | kept hne => exact absurd hzero hne
    | null _ hnull => exact absurd hnull hfound
    | made _ _ _ => rfl
    | fault _ _ habsent =>
      rw [hattr] at habsent
      contradiction
  have hpresent : isCached (s₁.dir i) = true := by
    rw [← hinstalled, hrec.dir_installTable i _ hfresh, if_pos rfl, newL1Entry_eq, isCached_newL2Entry, hattr]
  have hempty : s₁.table i j = 0 := by
    rw [← hinstalled, hrec.table_installTable i _ hfresh i j (by omega) (Or.inl rfl) hj, if_pos rfl]
  have hcases := vmmMapInternal.makeEntry_cases hself i j (by omega) hj pa attr false
  rw [vmmMapInternal_eq, htable]
  dsimp only
  generalize vmmMapInternal.makeEntry i j pa attr false s₁ = r at hcases ⊢
  cases hcases with
  | fault habsent =>
    rw [hpresent] at habsent
    contradiction
  | taken _ hne _ => exact absurd hempty hne
  | made _ _ => rfl
  | forced _ _ hforced => contradiction

/--
The page at 4 MiB is mapped to frame 2, and its page table is in frame 3.
-/
def onePage : Machine :=
  (bootMachine.allocated.allocated.installTable 1 0x3003).setTable 1 0 0x2003

theorem vmmAllocPages_onePage (sz : Word) {count : Nat} (hcount : (sz >>> 12).toNat = count + 1)
    : vmmAllocPages 0x400000 sz 3 bootMachine = vmmAllocPages.go 0x400000 3 1 0x401000 count onePage := by
  have hpage : (pmmAllocPage bootMachine.pmm).1 = 0x2000 := by decide +kernel
  have htable : (pmmAllocPage bootMachine.allocated.pmm).1 = 0x3000 := by decide +kernel
  have hmap := vmmMapInternal_first owned_bootMachine.allocated (show 1 < 1023 by decide) (show 0 < 1024 by decide)
    0x2000 (show isCached 3 = true by decide) (by decide) (by rw [htable]; decide)
  rw [htable] at hmap
  have hnext : vmmAllocPages.mapNext 0x400000 3 bootMachine = .ok true onePage := by
    unfold vmmAllocPages.mapNext
    rw [bind_ok _ (callPmmAllocPage_eq _), hpage, if_neg (by decide)]
    exact hmap
  unfold vmmAllocPages
  rw [hcount, vmmAllocPages.go, bind_ok _ hnext]
  rfl

/--
The next page is mapped to frame 4.
-/
def twoPages : Machine :=
  finalState (vmmAllocPages.go 0x400000 3 1 0x401000 1 onePage)

theorem vmmAllocPages_twoPages : vmmAllocPages 0x400000 0x2000 3 bootMachine = .ok true twoPages := by
  rw [vmmAllocPages_onePage 0x2000 (show _ = 1 + 1 by decide)]
  exact eq_ok_of_returned (by decide +kernel)

theorem finalState_twoPages : finalState (vmmAllocPages 0x400000 0x2000 3 bootMachine) = twoPages := by
  rw [vmmAllocPages_twoPages]
  rfl

theorem owned_twoPages : twoPages.Owned := by
  rw [← finalState_twoPages]
  exact vmmAllocPages_owned owned_bootMachine 0x400000 0x2000 3 (by decide) (by decide)

/--
Two pages are mapped, three more are mapped and given back for want of a fourth frame, and the first one is unmapped.
-/
theorem frames_owned_twoPages
    : ∃ s₁ s₂ s₃, vmmAllocPages 0x400000 0x2000 3 bootMachine = .ok true s₁
        ∧ vmmAllocPages 0x402000 0x4000 3 s₁ = .ok false s₂
        ∧ vmmUnmapPage 0x400000 s₂ = .ok () s₃
        ∧ s₃.Owned
        ∧ s₃.table 1 0 = 0
        ∧ s₃.table 1 1 = 0x4003
        ∧ s₃.pmm.occupied 4 = true
        ∧ (∀ k l, k < 1023 → l < 1024 → isCached (s₃.dir k) = true → isCached (s₃.table k l) = true →
            frameOf (s₃.table k l) = 4 → k = 1 ∧ l = 1)
        ∧ ∀ frame ∈ [2, 5, 6, 7], s₃.pmm.occupied frame = false := by
  have hrun := (((@AllocRun.start bootMachine).allocPages 0x400000 0x2000 3 (by decide) (by decide)).allocPages
    0x402000 0x4000 3 (by decide) (by decide)).unmapPage 0x400000
  obtain ⟨howned, hframes⟩ := frames_owned owned_bootMachine hrun
  rw [finalState_twoPages] at howned hframes
  obtain ⟨hoccupied, hunique, _⟩ := hframes 1 1 (by decide) (by decide) (by decide +kernel) (by decide +kernel)
  refine ⟨twoPages, _, _, vmmAllocPages_twoPages, eq_ok_of_returned (by decide +kernel),
    eq_ok_of_returned (by decide +kernel), howned, by decide +kernel, by decide +kernel, by decide +kernel, ?_,
    by decide +kernel⟩
  intro k l hk hl hpresent hcached hframe
  apply hunique k l hk hl hpresent hcached
  exact hframe.trans (by decide +kernel)

end AwaOS
