import AwaOS.Vmm.Sharing

/-!
Pages are allocated while some frames are shared: every new page gets a frame that was free, all pages
outside the range stay mapped as they were, and no frame in use is lost.
-/

namespace AwaOS

open Machine

/--
From `s₀` to `s`, all of the `count` pages from `vpn` on were mapped to frames that were free, or nothing
was mapped. Two free frames for each page are enough, one for the page and one for its table.
-/
structure AllocatedBut (shared : Nat → Prop) (s₀ : Machine) (vpn count : Nat) (attr : Word) (made : Bool)
    (s : Machine) : Prop where
  ownedBut : s.OwnedBut shared
  dir_kept : ∀ i, i < 1024 → s₀.dir i ≠ 0 → s.dir i = s₀.dir i
  occupied : ∀ frame, s₀.pmm.occupied frame = true → s.pmm.occupied frame = true
  entry_kept : ∀ v, v < vpnEnd → ¬(made = true ∧ vpn ≤ v ∧ v < vpn + count) → s.entry v = s₀.entry v
  entry_made : made = true → ∀ m, m < count →
    s₀.entry (vpn + m) = 0
      ∧ ∃ pa, s.entry (vpn + m) = newL2Entry attr pa ∧ s₀.pmm.occupied (pa >>> 12).toNat = false
  supplied : ∀ k, s₀.pmm.Supplies (2 * count + k) → (∀ m, m < count → s₀.entry (vpn + m) = 0) →
    made = true ∧ s.pmm.Supplies k

variable {shared : Nat → Prop} {s₀ s s' : Machine} {vpn n count : Nat} {attr : Word}

theorem allocatedBut_zero (h : s.OwnedBut shared) (vpn : Nat) (attr : Word)
    : AllocatedBut shared s vpn 0 attr true s where
  ownedBut := h
  dir_kept := fun _ _ _ => rfl
  occupied := fun _ hframe => hframe
  entry_kept := fun _ _ _ => rfl
  entry_made := by
    intro _ m hm
    omega
  supplied := by
    intro k hsupply _
    rw [Nat.mul_zero, Nat.zero_add] at hsupply
    exact ⟨rfl, hsupply⟩

/--
A call that neither changes the page tables nor marks a frame.
-/
theorem SameFrames.allocatedBut (h : SameFrames s.allocated s') (hown : s.OwnedBut shared)
    (hrefused : ¬(s.pmm.Supplies 2 ∧ s.entry vpn = 0))
    : AllocatedBut shared s vpn 1 attr false s' where
  ownedBut := h.ownedBut hown.allocated
  dir_kept := fun i _ _ => h.dir_eq i
  occupied := by
    intro frame hframe
    rw [h.occupied]
    exact s.occupied_allocated frame hframe
  entry_kept := fun v _ _ => h.entry_eq v
  entry_made := (nomatch ·)
  supplied := by
    intro k hsupply hempty
    exact absurd ⟨hsupply.mono (by omega), hempty 0 (by omega)⟩ hrefused

theorem MapNext.allocatedBut {made : Bool} (h : s.OwnedBut shared) (hvpn : vpn < vpnEnd)
    (hattr : isCached attr = true) (hnext : MapNext s vpn attr (.ok made s'))
    : AllocatedBut shared s vpn 1 attr made s' := by
  cases hnext with
  | noFrame hnull =>
    apply (SameFrames.refl _).allocatedBut h
    rintro ⟨hsupply, _⟩
    exact hsupply.1 hnull
  | refused _ hfound hcases =>
    obtain ⟨hsame, hwhy⟩ := hcases.refused
    apply hsame.allocatedBut h
    rintro ⟨hsupply, hempty⟩
    cases hwhy with
    | inl hne => exact hne hempty
    | inr hnull => exact hsupply.2.1 hnull.2
  | made _ hfound hcases =>
    have hmade := hcases.madeEntry h.allocated.toTabled hvpn hattr
    have hfree := (pmmAllocPage_took s.pmm hfound).free
    obtain ⟨hsupplies, hpmm⟩ := hcases.pmm_eq
    constructor
    . exact hcases.ownedBut h.allocated hvpn hattr (Or.inr (h.stray_nextFrame hfound))
    . exact hmade.dir_kept
    . intro frame hframe
      rw [hpmm]
      exact Pmm.occupied_afterAllocs _ _ (s.occupied_allocated frame hframe)
    . intro v hv hout
      apply hmade.entry_other v hv
      intro heq
      exact hout ⟨rfl, by omega, by omega⟩
    . intro _ m hm
      have hm0 : m = 0 := by omega
      subst hm0
      refine ⟨?_, _, hmade.entry_self, hfree⟩
      cases hcases with
      | made _ hempty => exact hempty
      | madeTable hzero _ => exact entry_of_absent hzero
      | replaced _ hforced => contradiction
    . intro k hsupply _
      refine ⟨rfl, ?_⟩
      rw [show 2 * 1 + k = k + 1 + 1 by omega] at hsupply
      rw [hpmm]
      split
      . exact hsupply.2.2
      . exact hsupply.2.mono (by omega)

/--
One more page is mapped.
-/
theorem AllocatedBut.succ (h : AllocatedBut shared s₀ vpn n attr true s)
    (hnext : AllocatedBut shared s (vpn + n) 1 attr true s') (hend : vpn + n < vpnEnd)
    : AllocatedBut shared s₀ vpn (n + 1) attr true s' where
  ownedBut := hnext.ownedBut
  dir_kept := by
    intro i hi hne
    have hkept := h.dir_kept i hi hne
    rw [hnext.dir_kept i hi (by rw [hkept]; exact hne), hkept]
  occupied := fun frame hframe => hnext.occupied frame (h.occupied frame hframe)
  entry_kept := by
    intro v hv hout
    rw [hnext.entry_kept v hv (fun hin => hout ⟨rfl, by omega, by omega⟩),
      h.entry_kept v hv (fun hin => hout ⟨rfl, by omega, by omega⟩)]
  entry_made := by
    intro _ m hm
    by_cases hmn : m = n
    . subst hmn
      obtain ⟨hempty, pa, hentry, hfree⟩ := hnext.entry_made rfl 0 (by omega)
      refine ⟨?_, pa, hentry, ?_⟩
      . rw [← h.entry_kept (vpn + m) hend (by omega)]
        exact hempty
      . by_contra hframe
        rw [h.occupied _ (Bool.not_eq_false _ ▸ hframe)] at hfree
        contradiction
    . obtain ⟨hempty, pa, hentry, hfree⟩ := h.entry_made rfl m (by omega)
      refine ⟨hempty, pa, ?_, hfree⟩
      rw [hnext.entry_kept (vpn + m) (by omega) (by omega)]
      exact hentry
  supplied := by
    intro k hsupply hempty
    rw [show 2 * (n + 1) + k = 2 * n + (2 * 1 + k) by omega] at hsupply
    obtain ⟨_, hrest⟩ := h.supplied _ hsupply (fun m hm => hempty m (by omega))
    apply hnext.supplied k hrest
    intro m hm
    rw [show vpn + n + m = vpn + n by omega, h.entry_kept _ hend (by omega)]
    exact hempty n (by omega)

/--
The pages that were mapped before a page failed are unmapped again.
-/
theorem AllocatedBut.rolledBack {s₁ : Machine} (h : AllocatedBut shared s₀ vpn n attr true s)
    (hnext : AllocatedBut shared s (vpn + n) 1 attr false s₁) (hunmapped : UnmappedBut shared s₁ vpn n s')
    (hend : vpn + n < vpnEnd) (hcount : n < count)
    : AllocatedBut shared s₀ vpn count attr false s' where
  ownedBut := hunmapped.ownedBut
  dir_kept := by
    intro i hi hne
    have hkept := h.dir_kept i hi hne
    rw [hunmapped.dir_eq, hnext.dir_kept i hi (by rw [hkept]; exact hne), hkept]
  occupied := by
    intro frame hframe
    apply hunmapped.occupied frame (hnext.occupied frame (h.occupied frame hframe))
    intro m hm heq
    obtain ⟨_, pa, hentry, hfree⟩ := h.entry_made rfl m hm
    rw [hnext.entry_kept (vpn + m) (by omega) (by simp), hentry, frameOf_newL2Entry] at heq
    rw [heq, hframe] at hfree
    contradiction
  entry_kept := by
    intro v hv _
    rw [hunmapped.entry_eq v hv]
    split
    . next hin =>
      obtain ⟨hempty, _⟩ := h.entry_made rfl (v - vpn) (by omega)
      rw [show vpn + (v - vpn) = v by omega] at hempty
      exact hempty.symm
    . next hout => rw [hnext.entry_kept v hv (by simp), h.entry_kept v hv (fun hin => hout hin.2)]
  entry_made := (nomatch ·)
  supplied := by
    intro k hsupply hempty
    rw [show 2 * count + k = 2 * n + (2 * 1 + (2 * (count - n - 1) + k)) by omega] at hsupply
    obtain ⟨_, hrest⟩ := h.supplied _ hsupply (fun m hm => hempty m (by omega))
    obtain ⟨hfalse, _⟩ := hnext.supplied _ hrest (by
      intro m hm
      rw [show vpn + n + m = vpn + n by omega, h.entry_kept _ hend (by omega)]
      exact hempty n hcount)
    contradiction

theorem go_allocatedBut {va va_ : Word} {i : Nat} (h₀ : s₀.OwnedBut shared)
    (h : AllocatedBut shared s₀ (va.toNat / 4096) i attr true s)
    (hva : va_.toNat / 4096 = va.toNat / 4096 + i) (count : Nat)
    (hend : va.toNat / 4096 + i + count ≤ vpnEnd) (hattr : isCached attr = true)
    : ∃ made s', vmmAllocPages.go va attr i va_ count s = .ok made s'
        ∧ AllocatedBut shared s₀ (va.toNat / 4096) (i + count) attr made s' := by
  induction count generalizing s i va_ with
  | zero => exact ⟨true, s, rfl, h⟩
  | succ count ih =>
    have hbelow : va_.toNat / 4096 < vpnEnd := by omega
    have hcases := mapNext_cases h.ownedBut.toTabled hbelow hattr
    unfold vmmAllocPages.go
    cases hresult : vmmAllocPages.mapNext va_ attr s with
    | error e s₁ =>
      rw [hresult] at hcases
      cases hcases
    | ok made s₁ =>
      rw [hresult] at hcases
      have hnext := hcases.allocatedBut h.ownedBut hbelow hattr
      rw [hva] at hnext
      rw [bind_ok _ hresult]
      cases made with
      | true =>
        have hva' : (va_ + 0x1000).toNat / 4096 = va.toNat / 4096 + (i + 1) := by
          rw [next_page hbelow, hva, Nat.add_assoc]
        obtain ⟨made, s', hrest, hmade⟩ := ih (h.succ hnext (by omega)) hva' (by omega)
        rw [show i + 1 + count = i + (count + 1) by omega] at hmade
        exact ⟨made, s', hrest, hmade⟩
      | false =>
        -- the frames of the pages before were free, so they are not shared
        have hown : ∀ m, m < i → isCached (s₁.entry (va.toNat / 4096 + m)) = true →
            ¬shared (frameOf (s₁.entry (va.toNat / 4096 + m))) := by
          intro m hm _
          obtain ⟨_, pa, hentry, hfree⟩ := h.entry_made rfl m hm
          rw [hnext.entry_kept _ (by omega) (by simp), hentry, frameOf_newL2Entry]
          exact h₀.owns.not_shared hfree
        obtain ⟨s', hunmap, hunmapped⟩ := vmmUnmapPages_unmappedBut hnext.ownedBut va i (by omega) hown
        refine ⟨false, s', ?_, h.rolledBack hnext hunmapped (by omega) (by omega)⟩
        simp only [Bool.not_false, ↓reduceIte]
        rw [bind_ok _ hunmap]
        rfl

theorem vmmAllocPages_allocatedBut (h : s.OwnedBut shared) (va sz : Word)
    (hend : va.toNat / 4096 + sz.toNat / 4096 ≤ vpnEnd) (hattr : isCached attr = true)
    : ∃ made s', vmmAllocPages va sz attr s = .ok made s'
        ∧ AllocatedBut shared s (va.toNat / 4096) (sz.toNat / 4096) attr made s' := by
  have hcount : (sz >>> 12).toNat = sz.toNat / 4096 := by
    rw [BitVec.toNat_ushiftRight, Nat.shiftRight_eq_div_pow]
  have hgo := go_allocatedBut h (allocatedBut_zero h (va.toNat / 4096) attr) rfl (sz.toNat / 4096) hend hattr
  unfold vmmAllocPages
  rw [hcount]
  rwa [Nat.zero_add] at hgo

section AllocPage

variable {va : Word}

theorem vAddr_index (va : Word) : vAddr (l1Index va) (l2Index va) (pgOffset va) = va := by
  have hoffset := toNat_pgOffset va
  have hindex := index_div va
  apply BitVec.eq_of_toNat_eq
  rw [toNat_vAddr (l1Index_lt va) (l2Index_lt va) (by omega)]
  omega

/--
`pmm_free_page` refuses the null page.
-/
theorem sameFrames_released_null (s : Machine) : SameFrames s (s.released 0) := by
  have hpmm : (s.released 0).pmm = s.pmm := by
    rw [pmm_released]
    unfold pmmFreePage
    dsimp only
    rw [if_neg]
    simp
  refine ⟨rfl, rfl, ?_, ?_⟩
  . intro frame
    rw [hpmm]
  . rw [hpmm]

/--
A frame that was taken in vain is given back.
-/
theorem AllocatedBut.released (h₀ : s₀.OwnedBut shared) (h : AllocatedBut shared s₀ vpn count attr false s)
    {page : Word} (hfree : s₀.pmm.occupied (page >>> 12).toNat = false)
    (hunref : Unreferenced s.refs (page >>> 12).toNat)
    (hrefused : ¬(s₀.pmm.Supplies (2 * count) ∧ ∀ m, m < count → s₀.entry (vpn + m) = 0))
    : AllocatedBut shared s₀ vpn count attr false (s.released page) where
  ownedBut := h.ownedBut.released page hunref (h₀.owns.not_shared hfree)
  dir_kept := h.dir_kept
  occupied := by
    intro frame hframe
    rw [occupied_released]
    . exact h.occupied frame hframe
    . intro heq
      rw [heq, hfree] at hframe
      contradiction
  entry_kept := h.entry_kept
  entry_made := (nomatch ·)
  supplied := by
    intro k hsupply hempty
    exact absurd ⟨hsupply.mono (by omega), hempty⟩ hrefused

/--
`vmm_alloc_page` for a page that is not mapped maps this page and no other one.
-/
theorem vmmAllocPage_allocatedBut (h : s.OwnedBut shared) (hva : va ≠ 0) (hslot : l1Index va < 1023)
    (hempty : s.entry (va.toNat / 4096) = 0) (hattr : isCached attr = true)
    : ∃ made s', vmmAllocPage va attr s = .ok (if made = true then va else 0) s'
        ∧ AllocatedBut shared s (va.toNat / 4096) 1 attr made s' := by
  have hend := page_lt_vpnEnd_iff.mpr hslot
  unfold vmmAllocPage
  rw [bind_ok _ (callPmmAllocPage_eq s)]
  by_cases hnull : (pmmAllocPage s.pmm).1 = 0
  . have hmap : vmmMapPage va (pmmAllocPage s.pmm).1 attr s.allocated = .ok 0 s.allocated := by
      unfold vmmMapPage
      rw [if_pos (Or.inl hnull)]
      rfl
    rw [bind_ok _ hmap, if_pos rfl, bind_ok _ (callPmmFreePage_eq _ _), hnull]
    refine ⟨false, _, rfl, (sameFrames_released_null _).allocatedBut h ?_⟩
    rintro ⟨hsupply, _⟩
    exact hsupply.1 hnull
  . have hfree := (pmmAllocPage_took s.pmm hnull).free
    have hunmapped : ¬s.allocated.Mapped (va.toNat / 4096) := not_not.mpr hempty
    obtain ⟨made, s₁, hcases, hmap⟩ :=
      vmmMapPage_unmapped h.allocated.toTabled hva hnull hslot hunmapped hattr
    rw [vAddr_index] at hmap
    cases made with
    | true =>
      rw [if_pos rfl] at hmap
      rw [bind_ok _ hmap, if_neg hva]
      exact ⟨true, s₁, rfl, (MapNext.made s₁ hnull hcases).allocatedBut h hend hattr⟩
    | false =>
      have hnext := MapNext.refused s₁ hnull hcases
      obtain ⟨hsame, hwhy⟩ := hcases.refused
      rw [if_neg (by decide)] at hmap
      rw [bind_ok _ hmap, if_pos rfl, bind_ok _ (callPmmFreePage_eq _ _)]
      refine ⟨false, _, rfl, (hnext.allocatedBut h hend hattr).released h hfree ?_ ?_⟩
      . rw [funext (refs_congr hsame.mem hsame.cr3)]
        exact (h.stray_nextFrame hnull).2
      . rintro ⟨hsupply, _⟩
        cases hwhy with
        | inl hne => exact hne hempty
        | inr hnone => exact hsupply.2.1 hnone.2

end AllocPage

/--
A run of allocations below the window onto the page tables and of `vmm_unmap_page`, which is not called for
a page with a shared frame. A call may fail.
-/
inductive SharedRun (shared : Nat → Prop) (s₀ : Machine) : Machine → Prop
  | start : SharedRun shared s₀ s₀
  | allocPage {s : Machine} (hrun : SharedRun shared s₀ s) (va attr : Word) (hva : va ≠ 0)
      (hslot : l1Index va < 1023) (hempty : s.entry (va.toNat / 4096) = 0)
      (hattr : hasFlags attr pgPresent = true)
      : SharedRun shared s₀ (finalState (vmmAllocPage va attr s))
  | allocPages {s : Machine} (hrun : SharedRun shared s₀ s) (va sz attr : Word)
      (hend : va.toNat / 4096 + sz.toNat / 4096 ≤ vpnEnd) (hattr : hasFlags attr pgPresent = true)
      : SharedRun shared s₀ (finalState (vmmAllocPages va sz attr s))
  | unmapPage {s : Machine} (hrun : SharedRun shared s₀ s) (va : Word) (hslot : l1Index va < 1023)
      (hown : isCached (s.entry (va.toNat / 4096)) = true → ¬shared (frameOf (s.entry (va.toNat / 4096))))
      : SharedRun shared s₀ (finalState (vmmUnmapPage va s))

theorem SharedRun.ownedBut (hrun : SharedRun shared s₀ s) (h : s₀.OwnedBut shared) : s.OwnedBut shared := by
  induction hrun with
  | start => exact h
  | allocPage hrun va attr hva hslot hempty hattr ih =>
    rw [hasFlags_pgPresent] at hattr
    obtain ⟨made, s', hresult, hmade⟩ := vmmAllocPage_allocatedBut ih hva hslot hempty hattr
    rw [hresult]
    exact hmade.ownedBut
  | allocPages hrun va sz attr hend hattr ih =>
    rw [hasFlags_pgPresent] at hattr
    obtain ⟨made, s', hresult, hmade⟩ := vmmAllocPages_allocatedBut ih va sz hend hattr
    rw [hresult]
    exact hmade.ownedBut
  | unmapPage hrun va hslot hown ih =>
    obtain ⟨s', hresult, hunmapped⟩ := vmmUnmapPage_unmappedBut ih (page_lt_vpnEnd_iff.mpr hslot) hown
    rw [hresult]
    exact hunmapped.ownedBut

/--
In every run a frame that is not shared belongs to one page, and the next frame that `pmm_alloc_page` returns is
neither shared nor the frame of a page or of a page table.
-/
theorem sharedRun_exclusive (h : s₀.OwnedBut shared) (hrun : SharedRun shared s₀ s)
    : (∀ v w, v < vpnEnd → w < vpnEnd → isCached (s.entry v) = true → isCached (s.entry w) = true →
        frameOf (s.entry v) = frameOf (s.entry w) → v = w ∨ shared (frameOf (s.entry w)))
        ∧ ((pmmAllocPage s.pmm).1 ≠ 0 →
            ¬shared s.nextFrame
              ∧ (∀ v, v < vpnEnd → isCached (s.entry v) = true → frameOf (s.entry v) ≠ s.nextFrame)
              ∧ ∀ i, i < 1024 → s.dir i ≠ 0 → frameOf (s.dir i) ≠ s.nextFrame) := by
  have hown := hrun.ownedBut h
  constructor
  . intro v w hv hw hcached hcached' heq
    have hslot := hown.toTabled.refs_entry hv hcached
    have hslot' := hown.toTabled.refs_entry hw hcached'
    rw [heq] at hslot
    by_cases hshared : shared (frameOf (s.entry w))
    . exact Or.inr hshared
    . have hslots := hown.owns.unique _ _ _ hshared hslot hslot'
      injection hslots with hi hj
      exact Or.inl (by omega)
  . intro hfound
    have hfree : s.pmm.occupied s.nextFrame = false := (pmmAllocPage_took s.pmm hfound).free
    have hunref := hown.owns.unreferenced hfree
    refine ⟨hown.owns.not_shared hfree, ?_, ?_⟩
    . intro v hv hcached heq
      have hslot := hown.toTabled.refs_entry hv hcached
      rw [heq] at hslot
      exact hunref _ hslot
    . intro i hi hne heq
      have hslot := refs_dir i hi hne
      rw [heq] at hslot
      exact hunref _ hslot

/--
Besides the two pages, two more share frame 9.
-/
def sharedPages : Machine :=
  (twoPages.setTable 1 4 0x9003).setTable 1 5 0x9003

theorem ownedBut_sharedPages : sharedPages.OwnedBut (fun frame => frame = 9) := by
  have hboot : bootMachine.OwnedBut (fun frame => frame = 9) := by
    apply wellFormed_bootMachine.ownedBut
    intro frame hframe
    rw [hframe]
    decide
  have hpages := (SharedRun.start.allocPages 0x400000 0x2000 3 (by decide) (by decide)).ownedBut hboot
  rw [finalState_twoPages] at hpages
  apply OwnedBut.setTable
  . exact hpages.setTable 1 4 0x9003 (by decide) (by decide) (by decide +kernel) (Or.inl (by decide))
  . decide
  . decide
  . decide +kernel
  . exact Or.inl (by decide)

/--
A page is mapped to frame 5, and one of the others is unmapped.
-/
theorem sharedRun_exclusive_sharedPages
    : ∃ s₁ s₂, vmmAllocPages 0x402000 0x1000 3 sharedPages = .ok true s₁
        ∧ vmmUnmapPage 0x400000 s₁ = .ok () s₂
        ∧ frameOf (s₂.entry 0x404) = 9
        ∧ frameOf (s₂.entry 0x405) = 9
        ∧ frameOf (s₂.entry 0x402) = 5
        ∧ (∀ v, v < vpnEnd → isCached (s₂.entry v) = true → frameOf (s₂.entry v) = 5 → v = 0x402)
        ∧ s₂.nextFrame = 6
        ∧ ∀ v, v < vpnEnd → isCached (s₂.entry v) = true → frameOf (s₂.entry v) ≠ 6 := by
  have hpage : SharedRun (fun frame => frame = 9) sharedPages
    (finalState (vmmAllocPages 0x402000 0x1000 3 sharedPages)) :=
    SharedRun.start.allocPages 0x402000 0x1000 3 (by decide) (by decide)
  have hrun := hpage.unmapPage 0x400000 (by decide) (fun _ => by decide +kernel)
  obtain ⟨hunique, hnext⟩ := sharedRun_exclusive ownedBut_sharedPages hrun
  obtain ⟨_, hunmapped, _⟩ := hnext (by decide +kernel)
  refine ⟨_, _, eq_ok_of_returned (by decide +kernel), eq_ok_of_returned (by decide +kernel), by decide +kernel,
    by decide +kernel, by decide +kernel, ?_, by decide +kernel, ?_⟩
  . intro v hv hcached hframe
    cases hunique v 0x402 hv (by decide) hcached (by decide +kernel) (hframe.trans (by decide +kernel)) with
    | inl heq => exact heq
    | inr hshared => exact absurd hshared (by decide +kernel)
  . intro v hv hcached hframe
    exact hunmapped v hv hcached (hframe.trans (by decide +kernel))

end AwaOS
