import AwaOS.Vmm.FirstFree

/-!
What a failed allocation of pages leaves behind. `vmm_alloc_pages` unmaps the pages that it has mapped, but
it does not free the frame that it took for the page that failed.
-/

namespace AwaOS

open Machine

/--
`vmm_lookup` and the bitmap show nothing but new page tables.
-/
structure NoTrace (s s' : Machine) : Prop where
  lookup : ∀ va, SameLookup s s' va
  free : ∀ frame, s'.pmm.occupied frame = s.pmm.occupied frame ∨ ∃ i, NewTable s s' i
    ∧ frameOf (s'.dir i) = frame

section NoTrace

variable {s s' : Machine}

theorem SameFrames.noTrace (h : s.WellFormed) (hsame : SameFrames s s') : NoTrace s s' where
  lookup va := by
    have h' := hsame.wellFormed h
    exact sameLookup_of h.toSelfMapped h.tables h'.toSelfMapped h'.tables (fun i _ _ => hsame.dir_eq i) va
      (fun _ => hsame.entry_eq _)
  free frame := Or.inl (hsame.occupied frame)

theorem WellFormed.refs_table_iff (h : s.WellFormed) {k l : Nat} (hk : k < 1023) (hl : l < 1024) (frame : Nat)
    : s.refs (.table k l) = some frame
        ↔
      isCached (s.entry (k * 1024 + l)) = true ∧ frameOf (s.entry (k * 1024 + l)) = frame := by
  rw [refs_table_eq_some, entry_index hl]
  unfold pte
  by_cases hzero : s.dir k = 0
  . rw [if_pos hzero, hzero, isCached_zero]
    simp
  . rw [if_neg hzero]
    have hpresent := (h.tables k hk).resolve_left hzero
    exact ⟨fun hand => hand.2.2.2, fun hand => ⟨hk, hl, hpresent, hand⟩⟩

/--
The same mappings and the same strays mean the same frames in use, but for new page tables.
-/
theorem noTrace_of_stray (h : s.WellFormed) (h' : s'.WellFormed)
    (hkept : ∀ i, i < 1024 → s.dir i ≠ 0 → s'.dir i = s.dir i)
    (hentry : ∀ v, v < vpnEnd → s'.entry v = s.entry v) (hstray : ∀ frame, s'.Stray frame ↔ s.Stray frame)
    : NoTrace s s' := by
  constructor
  . intro va
    apply sameLookup_of h.toSelfMapped h.tables h'.toSelfMapped h'.tables hkept va
    intro hslot
    exact hentry _ (page_lt_vpnEnd_iff.mpr hslot)
  . intro frame
    have hbefore := h.owns.used_iff frame
    have hafter := h'.owns.used_iff frame
    have htable : ∀ k l, s'.refs (.table k l) = some frame ↔ s.refs (.table k l) = some frame := by
      intro k l
      by_cases hkl : k < 1023 ∧ l < 1024
      . obtain ⟨hk, hl⟩ := hkl
        rw [WellFormed.refs_table_iff h' hk hl, WellFormed.refs_table_iff h hk hl,
          hentry _ (by unfold vpnEnd; omega)]
      . rw [refs_table_eq_some, refs_table_eq_some]
        exact ⟨fun hand => absurd ⟨hand.1, hand.2.1⟩ hkl, fun hand => absurd ⟨hand.1, hand.2.1⟩ hkl⟩
    by_cases hnew : ∃ i, NewTable s s' i ∧ frameOf (s'.dir i) = frame
    . exact Or.inr hnew
    . left
      rw [Bool.eq_iff_iff, hafter, hbefore]
      constructor
      . rintro (horphan | ⟨slot, hslot⟩)
        . exact Or.inl ((hstray frame).mp horphan)
        . right
          cases slot with
          | table k l => exact ⟨_, (htable k l).mp hslot⟩
          | dir i =>
            obtain ⟨hi, hne, hframe⟩ := refs_dir_eq_some.mp hslot
            by_cases hzero : s.dir i = 0
            . have hlast : i ≠ 1023 := by
                intro heq
                rw [heq] at hzero
                exact ne_zero_of_isCached h.present hzero
              exact absurd ⟨i, ⟨by omega, hzero, hne⟩, hframe⟩ hnew
            . rw [hkept i hi hzero] at hframe
              exact ⟨_, refs_dir_eq_some.mpr ⟨hi, hzero, hframe⟩⟩
      . rintro (horphan | ⟨slot, hslot⟩)
        . exact Or.inl ((hstray frame).mpr horphan)
        . right
          cases slot with
          | table k l => exact ⟨_, (htable k l).mpr hslot⟩
          | dir i =>
            obtain ⟨hi, hne, hframe⟩ := refs_dir_eq_some.mp hslot
            have hsame := hkept i hi hne
            rw [← hsame] at hne hframe
            exact ⟨_, refs_dir_eq_some.mpr ⟨hi, hne, hframe⟩⟩

/--
A frame that was free and is lost now.
-/
theorem not_noTrace_of_stray {frame : Nat} (hfree : s.pmm.occupied frame = false) (hlost : s'.Stray frame)
    : ¬NoTrace s s' := by
  intro htrace
  cases htrace.free frame with
  | inl hsame =>
    rw [hlost.1, hfree] at hsame
    contradiction
  | inr hnew =>
    obtain ⟨i, ⟨hi, _, hne⟩, hframe⟩ := hnew
    exact hlost.2 (.dir i) (refs_dir_eq_some.mpr ⟨by omega, hne, hframe⟩)

end NoTrace

/--
Page `n` of a range gets a frame, and then it cannot be mapped: it is mapped already, or there is no frame
for its page table.
-/
def LosesAt (s : Machine) (vpn n : Nat) : Prop :=
  s.pmm.Supplies (framesTaken s vpn n + 1)
    ∧
  (s.Mapped (vpn + n) ∨ (NeedsTable s vpn n ∧ ¬s.pmm.Supplies (framesTaken s vpn n + 2)))

/--
The first page of the range that cannot be mapped gets a frame.
-/
def LosesFrame (s : Machine) (vpn count : Nat) : Prop :=
  ∃ n, n < count ∧ (∀ m, m < n → ¬s.Mapped (vpn + m)) ∧ LosesAt s vpn n

section LosesFrame

variable {s₀ s s' : Machine} {vpn n count : Nat} {attr : Word}

theorem MadePages.not_losesAt (h : MadePages s₀ vpn n attr s) {m : Nat} (hm : m < n) : ¬LosesAt s₀ vpn m := by
  rintro ⟨_, hmapped | ⟨hneeds, hnone⟩⟩
  . exact hmapped (h.fresh m hm)
  . have hle := framesTaken_mono s₀ vpn (Nat.succ_le_of_lt hm)
    rw [framesTaken, if_pos hneeds] at hle
    exact hnone (h.supplies.mono hle)

/--
Page `n` gets a frame and cannot be mapped if and only if it takes a frame before it fails.
-/
theorem MadePages.losesFrame_iff (h : MadePages s₀ vpn n attr s) (hn : n < count) (hend : vpn + n < vpnEnd)
    (hnext : MapNext s (vpn + n) attr (.ok false s'))
    : LosesFrame s₀ vpn count ↔ (pmmAllocPage s.pmm).1 ≠ 0 := by
  have hone : s₀.pmm.Supplies (framesTaken s₀ vpn n + 1) ↔ (pmmAllocPage s.pmm).1 ≠ 0 := by
    rw [Pmm.supplies_add, ← h.pmm_eq]
    exact ⟨fun hand => hand.2.1, fun hfound => ⟨h.supplies, hfound, trivial⟩⟩
  constructor
  . rintro ⟨m, _, _, hloses⟩
    rw [← hone]
    by_cases hmn : m < n
    . exact absurd hloses (h.not_losesAt hmn)
    . exact hloses.1.mono (Nat.add_le_add_right (framesTaken_mono s₀ vpn (Nat.le_of_not_lt hmn)) 1)
  . intro hfound
    refine ⟨n, hn, fun m hm hmapped => hmapped (h.fresh m hm), hone.mpr hfound, ?_⟩
    cases hnext with
    | noFrame hnull => exact absurd hnull hfound
    | refused _ _ hcases =>
      cases hcases.refused.2 with
      | inl hmapped =>
        left
        unfold Mapped
        rw [← entry, ← h.entry_kept (vpn + n) hend (by omega)]
        exact hmapped
      | inr hnone =>
        right
        refine ⟨(h.needsTable_iff hend).mpr hnone.1, ?_⟩
        rw [Pmm.supplies_add, ← h.pmm_eq]
        exact fun hand => hand.2.2.1 hnone.2

end LosesFrame

/--
A call of `vmm_alloc_pages` that fails leaves no trace if and only if no frame is lost.
-/
theorem AllocPages.noTrace_iff {s s' : Machine} {vpn count : Nat} {attr : Word} (h : s.WellFormed)
    (hbelow : s.FreeBelow) (hend : vpn + count ≤ vpnEnd) (hcases : AllocPages s vpn count attr (.ok false s'))
    : NoTrace s s' ↔ ¬LosesFrame s vpn count := by
  cases hcases with
  | failed n hn s₁ s₂ _ hmade hnext hunmapped =>
    have hfailed := hnext.failed hmade.wellFormed
    rw [hmade.losesFrame_iff hn (by omega) hnext, not_not]
    constructor
    . intro htrace
      by_contra hfound
      refine not_noTrace_of_stray (hmade.nextFrame_free hfound) ?_ htrace
      rw [hunmapped.stray (fun m hm => hmade.freeable hbelow hfailed hm), hfailed.stray]
      exact Or.inr ⟨hfound, rfl⟩
    . intro hnull
      apply noTrace_of_stray h hunmapped.wellFormed
      . intro i hi hne
        rw [hunmapped.dir_eq, hfailed.dir_eq]
        exact hmade.dir_kept i hi hne
      . intro v hv
        exact hmade.entry_rolledBack hfailed hunmapped hv
      . intro frame
        rw [hunmapped.stray (fun m hm => hmade.freeable hbelow hfailed hm), hfailed.stray, hmade.stray]
        exact ⟨fun hor => hor.resolve_right (fun hand => hand.1 hnull), Or.inl⟩

section MapPage

variable {s s' : Machine} {pa attr entry : Word}

/--
An entry of page table 0 that is reached through the wrapped address.
-/
theorem makeEntry_wrapped (h : s.SelfMapped)
    (hresult : vmmMapInternal.makeEntry 1024 1 pa attr false s = .ok false s')
    : s' = s ∧ s.table 0 1 ≠ 0 := by
  have hsame : vmmMapInternal.makeEntry 1024 1 pa attr false = vmmMapInternal.makeEntry 0 1 pa attr false := by
    unfold vmmMapInternal.makeEntry
    rw [vmmMapPage.l2Vaddr_wrapped]
  have hcases := vmmMapInternal.makeEntry_cases h 0 1 (by decide) (by decide) pa attr false
  rw [hsame] at hresult
  rw [hresult] at hcases
  cases hcases with
  | taken _ hne _ => exact ⟨rfl, hne⟩

theorem dir_zeroWords_of_ne {frame : Nat} (hframe : frame ≠ s.cr3) (i : Nat)
    : (s.zeroWords frame 0 1024).dir i = s.dir i := by
  unfold dir zeroWords
  dsimp only
  rw [Function.update_of_ne hframe.symm]

theorem Machine.SelfMapped.zeroWords_of_ne (h : s.SelfMapped) {frame : Nat} (hframe : frame ≠ s.cr3)
    : (s.zeroWords frame 0 1024).SelfMapped where
  present := by
    rw [dir_zeroWords_of_ne hframe]
    exact h.present
  self := by
    rw [dir_zeroWords_of_ne hframe]
    exact h.self

theorem table_zeroWords_self {i : Nat} (hframe : frameOf (s.dir i) ≠ s.cr3) (j : Nat) (hj : j < 1024)
    : (s.zeroWords (frameOf (s.dir i)) 0 1024).table i j = 0 := by
  unfold table
  rw [dir_zeroWords_of_ne hframe]
  unfold zeroWords
  dsimp only
  rw [Function.update_self, if_pos ⟨Nat.zero_le _, by omega⟩]

theorem Machine.Owned.frame_ne_cr3 (h : s.Owned) {i j : Nat} (hi : i < 1023) (hj : j < 1024)
    (hpresent : isCached (s.dir i) = true) (hcached : isCached (s.table i j) = true)
    : frameOf (s.table i j) ≠ s.cr3 := by
  intro heq
  have hself := refs_dir 1023 (by decide) (ne_zero_of_isCached h.present)
  rw [h.self, ← heq] at hself
  have hslots := h.owns.unique _ _ _ (refs_table i j hi hj hpresent hcached) hself
  contradiction

/--
Behind the end of the directory, `__vmm_map_internal` takes the word at address zero for the entry of a
page table, and page table 0 for this table. If it fails, then it changes nothing.
-/
theorem mapInternal_wrapped (h : s.WellFormed) (hload : load 0 s = .ok entry s)
    (hresult : vmmMapInternal 1024 1 pa attr false s = .ok false s')
    : SameFrames s s' := by
  obtain ⟨hpresent, hcached⟩ := vmmMapPage.present_of_load_zero hload
  rw [vmmMapInternal_eq] at hresult
  unfold vmmMapInternal.makeTable at hresult
  rw [vmmMapPage.l1EntryAddr_wrapped, bind_ok _ hload] at hresult
  by_cases hzero : entry = 0
  . rw [if_pos hzero, bind_ok _ (callPmmAllocPage_eq s)] at hresult
    by_cases hnull : (pmmAllocPage s.pmm).1 = 0
    . rw [if_pos hnull] at hresult
      obtain ⟨_, rfl⟩ := EStateM.Result.ok.inj hresult
      exact sameFrames_allocated hnull
    . -- the table is made in page zero, cleared in page table 0, and then its entry is empty
      have hne := h.toOwned.frame_ne_cr3 (by decide) (by decide) hpresent hcached
      have hframe := h.recursive.ne_cr3 0 (by decide) (ne_zero_of_isCached hpresent)
      have htranslate : s.translate 0 = some (frameOf (s.table 0 0), 0) := by
        have hl1 : l1Index 0 = 0 := by decide
        have hl2 : l2Index 0 = 0 := by decide
        have hdir : isCached (s.mem s.cr3 0) = true := hpresent
        have htable : isCached (s.mem (frameOf (s.mem s.cr3 0)) 0) = true := hcached
        unfold Machine.translate
        rw [hl1, hl2]
        dsimp only
        rw [if_pos hdir, if_pos htable]
        rfl
      have hstore : store 0 (newL1Entry attr (pmmAllocPage s.pmm).1) s.allocated
          = .ok () (s.allocated.setWord (frameOf (s.table 0 0)) 0 (newL1Entry attr (pmmAllocPage s.pmm).1)) := by
        have htranslate' : s.allocated.translate 0 = some (frameOf (s.table 0 0), 0) := htranslate
        unfold store
        rw [htranslate']
      have hself := h.allocated.toSelfMapped.setWord_of_ne _ 0 (newL1Entry attr (pmmAllocPage s.pmm).1) hne
      have hdir := @dir_setWord_of_ne s.allocated _ 0 (newL1Entry attr (pmmAllocPage s.pmm).1) hne
      have hpresent' := hpresent
      have hframe' := hframe
      rw [← dir_allocated, ← hdir 0] at hpresent' hframe'
      have hcleared := hself.memsetZero_table 0 (by decide) hpresent' hframe'
      rw [if_neg hnull, bind_ok _ hstore, vmmMapPage.l2Vaddr_wrapped, bind_ok _ hcleared] at hresult
      obtain ⟨_, hfull⟩ := makeEntry_wrapped (hself.zeroWords_of_ne hframe') hresult
      exact absurd (table_zeroWords_self hframe' 1 (by decide)) hfull
  . rw [if_neg hzero] at hresult
    obtain ⟨rfl, _⟩ := makeEntry_wrapped h.toSelfMapped hresult
    exact .refl _

/--
`vmm_map_page` returns `NULL` only if it has changed nothing.
-/
theorem vmmMapPage_null (h : s.WellFormed) {va : Word} (hva : pgOffset va = 0) (hvane : va ≠ 0) (hpa : pa ≠ 0)
    (hattr : isCached attr = true) (hresult : vmmMapPage va pa attr s = .ok 0 s')
    : SameFrames s s' := by
  have hpos : 0 < va.toNat / 4096 := by
    have haligned := toNat_of_aligned hva
    apply Nat.pos_of_ne_zero
    intro hzero
    rw [hzero, Nat.zero_mul] at haligned
    exact hvane (BitVec.eq_of_toNat_eq haligned)
  -- a page that was found is not at address zero
  have hne : ∀ w, va.toNat / 4096 ≤ w → w < 1024 * 1024 → vAddr (w / 1024) (w % 1024) (pgOffset va) ≠ 0 := by
    intro w hge hlt hzero
    have haddr := toNat_vAddr (show w / 1024 < 1024 by omega) (show w % 1024 < 1024 by omega)
      (show (0 : Word).toNat < 4096 by decide)
    rw [hva] at hzero
    rw [hzero, Nat.div_add_mod'] at haddr
    have haddr' : 0 = w * 4096 + 0 := haddr
    omega
  by_cases hzero : s.dir (l1Index va) = 0
  . have hslot : l1Index va < 1023 := by
      have hl1 := l1Index_lt va
      refine Nat.lt_of_le_of_ne (by omega) ?_
      intro heq
      rw [heq] at hzero
      exact ne_zero_of_isCached h.present hzero
    obtain ⟨made, s'', hcases, hresult'⟩ := vmmMapPage_of_no_table h.tabled hvane hpa hslot hzero hattr
    obtain ⟨hnull, rfl⟩ := EStateM.Result.ok.inj (hresult'.symm.trans hresult)
    cases made with
    | false => exact hcases.refused.1
    | true =>
      have hfirst := hne _ (Nat.le_refl _) (by have := va.isLt; omega)
      rw [(index_div va).1, (index_div va).2] at hfirst
      exact absurd hnull hfirst
  . have hexit := vmmMapPage.search_exit h.toSelfMapped pa attr (l2Index_le va) (pos_va va)
      (l1Index_lt va) hzero
    unfold vmmMapPage at hresult
    rw [if_neg (not_or.mpr ⟨hpa, hvane⟩), bind_ok _ (h.load_l1 _ (l1Index_lt va))] at hresult
    generalize hsearch : vmmMapPage.search pa attr (l1Index va) (l2Index va) (l2Index_le va)
      (s.dir (l1Index va)) s = r at hexit
    cases hexit with
    | fault e =>
      rw [bind_error _ hsearch] at hresult
      contradiction
    | mapped w hge hlt =>
      rw [bind_ok _ hsearch] at hresult
      exact absurd (EStateM.Result.ok.inj hresult).1 (hne w hge hlt)
    | wrapped entry hload =>
      rw [bind_ok _ hsearch] at hresult
      dsimp only at hresult
      rw [if_neg (by decide)] at hresult
      cases hmap : vmmMapInternal 1024 1 pa attr false s with
      | error e s'' =>
        rw [bind_error _ hmap] at hresult
        contradiction
      | ok made s'' =>
        rw [bind_ok _ hmap] at hresult
        cases made with
        | false =>
          obtain ⟨_, rfl⟩ := EStateM.Result.ok.inj hresult
          exact mapInternal_wrapped h hload hmap
        | true =>
          have hpage := (EStateM.Result.ok.inj hresult).1
          rw [hva] at hpage
          exact absurd hpage (by decide)

/--
`vmm_alloc_page` gives back the frame that it took.
-/
theorem vmmAllocPage_null (h : s.WellFormed) (hbelow : s.FreeBelow) {va : Word} (hva : pgOffset va = 0)
    (hvane : va ≠ 0) (hattr : isCached attr = true) (hresult : vmmAllocPage va attr s = .ok 0 s')
    : SameFrames s s' := by
  unfold vmmAllocPage at hresult
  rw [bind_ok _ (callPmmAllocPage_eq s)] at hresult
  cases hmap : vmmMapPage va (pmmAllocPage s.pmm).1 attr s.allocated with
  | error e s₁ =>
    rw [bind_error _ hmap] at hresult
    contradiction
  | ok result s₁ =>
    rw [bind_ok _ hmap] at hresult
    by_cases hzero : result = 0
    . rw [if_pos hzero, bind_ok _ (callPmmFreePage_eq _ _)] at hresult
      obtain ⟨_, rfl⟩ := EStateM.Result.ok.inj hresult
      rw [hzero] at hmap
      by_cases hnull : (pmmAllocPage s.pmm).1 = 0
      . have hnone : vmmMapPage va (pmmAllocPage s.pmm).1 attr s.allocated = .ok 0 s.allocated := by
          unfold vmmMapPage
          rw [if_pos (Or.inl hnull)]
          rfl
        obtain ⟨_, rfl⟩ := EStateM.Result.ok.inj (hmap.symm.trans hnone)
        have hkept : s.allocated.released (pmmAllocPage s.pmm).1 = s.allocated := by
          rw [hnull]
          rfl
        rw [hkept]
        exact sameFrames_allocated hnull
      . have hsame := vmmMapPage_null h.allocated hva hvane hnull hattr hmap
        obtain ⟨hpos, hlt⟩ := (madePages_zero h 0 attr).nextFrame_bounds hnull hbelow
        have hmaxPg : s₁.pmm.maxPg = s.pmm.maxPg := hsame.maxPg.trans s.pmm.maxPg_pmmAllocPage
        rw [← hmaxPg] at hlt
        constructor
        . exact hsame.mem
        . exact hsame.cr3
        . intro frame
          have hfree : s.pmm.occupied s.nextFrame = false := (pmmAllocPage_took s.pmm hnull).free
          rw [Bool.eq_iff_iff, occupied_released_iff _ hpos hlt, hsame.occupied, occupied_allocated_iff hnull]
          constructor
          . rintro ⟨hold | hnew, hne⟩
            . exact hold
            . exact absurd hnew hne
          . intro hold
            refine ⟨Or.inl hold, ?_⟩
            intro heq
            rw [heq] at hold
            have hold' : s.pmm.occupied s.nextFrame = true := hold
            rw [hfree] at hold'
            contradiction
        . rw [pmm_released, maxPg_pmmFreePage]
          exact hmaxPg
    . rw [if_neg hzero] at hresult
      exact absurd (EStateM.Result.ok.inj hresult).1 hzero

end MapPage

/--
A failed call of `vmm_alloc_pages` or `vmm_alloc_page` leaves no trace.
-/
def LeavesNoTrace (s : Machine) (va sz attr : Word) : Prop :=
  (∀ s', vmmAllocPages va sz attr s = .ok false s' → NoTrace s s')
    ∧
  (∀ s', vmmAllocPage va attr s = .ok 0 s' → NoTrace s s')

section LeavesNoTrace

variable {s : Machine} {va sz attr : Word}

theorem toNat_range (hva : pgOffset va = 0) (hsz : pgOffset sz = 0) (hend : va.toNat + sz.toNat ≤ 0xFFC00000)
    : va.toNat / 4096 + sz.toNat / 4096 ≤ vpnEnd := by
  have hva' := toNat_of_aligned hva
  have hsz' := toNat_of_aligned hsz
  unfold vpnEnd
  omega

theorem leavesNoTrace_of_not_losesFrame (h : s.WellFormed) (hbelow : s.FreeBelow) (hva : pgOffset va = 0)
    (hvane : va ≠ 0) (hend : va.toNat / 4096 + sz.toNat / 4096 ≤ vpnEnd) (hattr : isCached attr = true)
    (hkept : ¬LosesFrame s (va.toNat / 4096) (sz.toNat / 4096))
    : LeavesNoTrace s va sz attr := by
  constructor
  . intro s' hresult
    have hcases := vmmAllocPages_cases h va sz hend hattr
    rw [hresult] at hcases
    exact (hcases.noTrace_iff h hbelow hend).mpr hkept
  . intro s' hresult
    exact (vmmAllocPage_null h hbelow hva hvane hattr hresult).noTrace h

theorem not_leavesNoTrace_of_losesFrame (h : s.WellFormed) (hbelow : s.FreeBelow)
    (hend : va.toNat / 4096 + sz.toNat / 4096 ≤ vpnEnd) (hattr : isCached attr = true)
    (hloses : LosesFrame s (va.toNat / 4096) (sz.toNat / 4096))
    : ¬LeavesNoTrace s va sz attr := by
  intro hleaves
  have hcases := vmmAllocPages_cases h va sz hend hattr
  generalize hresult : vmmAllocPages va sz attr s = r at hcases
  cases hcases with
  | done s₁ hmade =>
    obtain ⟨n, hn, _, hlost⟩ := hloses
    exact hmade.not_losesAt hn hlost
  | failed n hn s₁ s₂ s' hmade hnext hunmapped =>
    have hfailed : AllocPages s (va.toNat / 4096) (sz.toNat / 4096) attr (.ok false s') :=
      .failed n hn s₁ s₂ s' hmade hnext hunmapped
    exact (hfailed.noTrace_iff h hbelow hend).mp (hleaves.1 s' hresult) hloses

end LeavesNoTrace

/--
A failed allocation leaves no trace if and only if the first page of the range that cannot be mapped gets no
frame.
-/
theorem allocFailure_noTrace_iff {s : Machine} (h : s.WellFormed) (hbelow : s.FreeBelow) {va sz attr : Word}
    (hva : pgOffset va = 0) (hvane : va ≠ 0) (hsz : pgOffset sz = 0) (hend : va.toNat + sz.toNat ≤ 0xFFC00000)
    (hattr : hasFlags attr pgPresent = true)
    : LeavesNoTrace s va sz attr ↔ ¬LosesFrame s (va.toNat / 4096) (sz.toNat / 4096) := by
  have hcached : isCached attr = true := by rw [← hasFlags_pgPresent, hattr]
  have hrange := toNat_range hva hsz hend
  constructor
  . intro hleaves hloses
    exact not_leavesNoTrace_of_losesFrame h hbelow hrange hcached hloses hleaves
  . exact leavesNoTrace_of_not_losesFrame h hbelow hva hvane hrange hcached

theorem freeBelow_bootMachine : bootMachine.FreeBelow := by
  intro frame _ hfree
  unfold Pmm.occupied Bitmap.test bootMachine at hfree
  dsimp only at hfree
  by_contra hge
  have hbeyond : 8 ≤ frame := Nat.le_of_not_lt hge
  rw [if_neg (by omega), Bitmap.getMsbD_allOnes_byte (by omega)] at hfree
  contradiction

/--
Five pages are mapped before there is no frame left for the sixth, and given back. The page table stays.
-/
theorem allocFailure_noTrace_bootMachine
    : ∃ s, vmmAllocPages 0x400000 0x6000 3 bootMachine = .ok false s
        ∧ s.dir 1 = 0x3003
        ∧ NoTrace bootMachine s := by
  have hkept : ¬LosesFrame bootMachine 0x400 6 := by
    rintro ⟨n, hn, _, _, hmapped | ⟨hneeds, hshort⟩⟩
    . exact @not_mapped_of_directory bootMachine rfl rfl (0x400 + n) (by unfold vpnEnd; omega) hmapped
    . have hzero : n = 0 := by
        have hfirst := hneeds.2
        omega
      rw [hzero] at hshort
      exact hshort (supplies_bootMachine.mono (by decide))
  have hresult : vmmAllocPages 0x400000 0x6000 3 bootMachine
      = .ok false (finalState (vmmAllocPages.go 0x400000 3 1 0x401000 5 onePage)) := by
    rw [vmmAllocPages_onePage 0x6000 (show _ = 5 + 1 by decide)]
    exact eq_ok_of_returned (by decide +kernel)
  have hleaves := (allocFailure_noTrace_iff wellFormed_bootMachine freeBelow_bootMachine
    (show pgOffset 0x400000 = 0 by decide) (by decide) (show pgOffset 0x6000 = 0 by decide) (by decide)
    (show hasFlags 3 pgPresent = true by decide)).mpr hkept
  exact ⟨_, hresult, by decide +kernel, hleaves.1 _ hresult⟩

/--
The last free frame is taken for a page whose page table then cannot be made, and it is lost.
-/
theorem vmmAllocPages_loses_frame
    : ¬∀ (s : Machine) (va sz attr : Word),
        s.WellFormed → s.FreeBelow → pgOffset va = 0 → va ≠ 0 → pgOffset sz = 0 →
        va.toNat + sz.toNat ≤ 0xFFC00000 → hasFlags attr pgPresent = true → LeavesNoTrace s va sz attr := by
  intro hall
  have hwf : oneFrameLeft.WellFormed := wellFormed_of_directory rfl rfl (by decide)
  have hbelow : oneFrameLeft.FreeBelow := by
    intro frame _ hfree
    rw [free_oneFrameLeft hfree]
    decide
  have hneeds : NeedsTable oneFrameLeft 0x400 0 := by decide
  have hloses : LosesFrame oneFrameLeft 0x400 1 :=
    ⟨0, by decide, by simp, supplies_oneFrameLeft, Or.inr ⟨hneeds, not_supplies_oneFrameLeft⟩⟩
  exact @not_leavesNoTrace_of_losesFrame oneFrameLeft 0x400000 0x1000 3 hwf hbelow (by decide)
    (by decide) hloses
    (hall oneFrameLeft 0x400000 0x1000 3 hwf hbelow (by decide) (by decide) (by decide) (by decide) (by decide))

end AwaOS
