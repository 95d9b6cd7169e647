import AwaOS.Vmm.NoTrace
import AwaOS.Vmm.Range

/-!
`vmm_alloc_pages` and `vmm_unmap_page` undo each other, in whatever order the pages of the range are unmapped.
-/

namespace AwaOS

open Machine

/--
`vmm_unmap_page` for one page after the other.
-/
def unmapEach : List Word → KernelM Unit
  | [] => pure ()
  | page :: pages => do
    vmmUnmapPage page
    unmapEach pages

/--
The addresses of the pages of `[va, va + sz)`.
-/
def pagesOf (va sz : Word) : List Word :=
  (List.range (sz.toNat / 4096)).map (fun m => va + BitVec.ofNat 32 (4096 * m))

/--
A page whose frame `vmm_unmap_page` gives back.
-/
structure Reclaimable (s : Machine) (page : Word) : Prop where
  below : page.toNat / 4096 < vpnEnd
  cached : isCached (s.entry (page.toNat / 4096)) = true
  freeable : Freeable s (page.toNat / 4096)

/--
From `s` to `s'`, these pages were unmapped, and their frames were freed.
-/
structure UnmappedEach (s : Machine) (pages : List Word) (s' : Machine) : Prop where
  wellFormed : s'.WellFormed
  dir_eq : ∀ i, s'.dir i = s.dir i
  entry_eq : ∀ v, v < vpnEnd → s'.entry v = if v ∈ pages.map (·.toNat / 4096) then 0 else s.entry v
  stray : ∀ frame, s'.Stray frame ↔ s.Stray frame

section UnmapEach

variable {s s' : Machine}

/--
A page that is not the one that was unmapped.
-/
theorem Unmapped.keeps {page other : Word} (h : Unmapped s (page.toNat / 4096) 1 s')
    (hne : other.toNat / 4096 ≠ page.toNat / 4096) (hother : Reclaimable s other)
    : Reclaimable s' other := by
  have hentry := h.entry_eq _ hother.below
  rw [if_neg (by omega)] at hentry
  constructor
  . exact hother.below
  . rw [hentry]
    exact hother.cached
  . constructor
    . rw [hentry]
      exact hother.freeable.pos
    . rw [hentry, h.maxPg_eq]
      exact hother.freeable.lt

theorem Unmapped.cons {s₁ : Machine} {page : Word} {pages : List Word}
    (hone : Unmapped s (page.toNat / 4096) 1 s₁)
    (hfreeable : Freeable s (page.toNat / 4096)) (hrest : UnmappedEach s₁ pages s')
    : UnmappedEach s (page :: pages) s' := by
  constructor
  . exact hrest.wellFormed
  . intro i
    rw [hrest.dir_eq, hone.dir_eq]
  . intro v hv
    rw [hrest.entry_eq v hv, hone.entry_eq v hv, List.map_cons]
    by_cases hmem : v ∈ pages.map (·.toNat / 4096)
    . rw [if_pos hmem, if_pos (List.mem_cons_of_mem _ hmem)]
    . rw [if_neg hmem]
      apply if_congr
      . rw [List.mem_cons, or_iff_left hmem]
        omega
      . rfl
      . rfl
  . intro frame
    rw [hrest.stray]
    apply hone.stray
    intro m hm
    have hzero : m = 0 := by omega
    subst hzero
    exact hfreeable

/--
The order of the pages does not matter.
-/
theorem unmapEach_unmapped (h : s.WellFormed) (pages : List Word) (hnodup : (pages.map (·.toNat / 4096)).Nodup)
    (hpages : ∀ page, page ∈ pages → Reclaimable s page)
    : ∃ s', unmapEach pages s = .ok () s' ∧ UnmappedEach s pages s' := by
  induction pages generalizing s with
  | nil => exact ⟨s, rfl, h, fun _ => rfl, fun _ _ => rfl, fun _ => Iff.rfl⟩
  | cons page pages ih =>
    have hpage := hpages page List.mem_cons_self
    rw [List.map_cons, List.nodup_cons] at hnodup
    obtain ⟨s₁, hresult, hone⟩ := vmmUnmapPage_unmapped h hpage.below hpage.cached
    have hothers : ∀ other, other ∈ pages → Reclaimable s₁ other := by
      intro other hmem
      apply hone.keeps
      . intro heq
        apply hnodup.1
        rw [← heq]
        exact List.mem_map_of_mem hmem
      . exact hpages other (List.mem_cons_of_mem _ hmem)
    obtain ⟨s', hresult', hrest⟩ := ih hone.wellFormed hnodup.2 hothers
    refine ⟨s', ?_, hone.cons hpage.freeable hrest⟩
    unfold unmapEach
    rw [bind_ok _ hresult]
    exact hresult'

end UnmapEach

section Pages

variable {va sz page : Word}

theorem toNat_pageOf {m : Nat} (hend : va.toNat / 4096 + m < vpnEnd)
    : (va + BitVec.ofNat 32 (4096 * m)).toNat / 4096 = va.toNat / 4096 + m := by
  unfold vpnEnd at hend
  rw [BitVec.toNat_add, BitVec.toNat_ofNat, Nat.mod_eq_of_lt (show 4096 * m < 2 ^ 32 by omega),
    Nat.mod_eq_of_lt (by omega)]
  omega

theorem mem_pagesOf (hend : va.toNat / 4096 + sz.toNat / 4096 ≤ vpnEnd)
    : page ∈ pagesOf va sz
        →
      ∃ m, m < sz.toNat / 4096 ∧ page = va + BitVec.ofNat 32 (4096 * m)
        ∧ page.toNat / 4096 = va.toNat / 4096 + m := by
  intro hmem
  unfold pagesOf at hmem
  rw [List.mem_map] at hmem
  obtain ⟨m, hm, heq⟩ := hmem
  rw [List.mem_range] at hm
  refine ⟨m, hm, heq.symm, ?_⟩
  rw [← heq]
  exact toNat_pageOf (by omega)

theorem numbers_pagesOf (hend : va.toNat / 4096 + sz.toNat / 4096 ≤ vpnEnd)
    : (pagesOf va sz).map (·.toNat / 4096) = (List.range (sz.toNat / 4096)).map (va.toNat / 4096 + ·) := by
  unfold pagesOf
  rw [List.map_map]
  apply List.map_congr_left
  intro m hm
  rw [List.mem_range] at hm
  exact toNat_pageOf (by omega)

end Pages

section MadePages

variable {s₀ s s' : Machine} {vpn n : Nat} {attr : Word}

theorem MadePages.refs_page (h : MadePages s₀ vpn n attr s) (hattr : isCached attr = true)
    (hend : vpn + n ≤ vpnEnd) {m : Nat} (hm : m < n)
    : s.refs (.table ((vpn + m) / 1024) ((vpn + m) % 1024)) = some (frameOf (s.entry (vpn + m))) := by
  unfold vpnEnd at hend
  rw [WellFormed.refs_table_iff h.wellFormed (by omega) (by omega), Nat.div_add_mod']
  exact ⟨h.cached hattr hm, rfl⟩

/--
What was referred to before the pages were mapped still is.
-/
theorem MadePages.refs_kept (h : MadePages s₀ vpn n attr s) (hwf : s₀.WellFormed) (slot : Slot) (frame : Nat)
    (hslot : s₀.refs slot = some frame)
    : s.refs slot = some frame := by
  cases slot with
  | dir i =>
    rw [refs_dir_eq_some] at hslot ⊢
    obtain ⟨hi, hne, hframe⟩ := hslot
    rw [h.dir_kept i hi hne]
    exact ⟨hi, hne, hframe⟩
  | table k l =>
    obtain ⟨hk, hl, _⟩ := refs_table_eq_some.mp hslot
    rw [WellFormed.refs_table_iff hwf hk hl] at hslot
    rw [WellFormed.refs_table_iff h.wellFormed hk hl]
    by_cases hin : vpn ≤ k * 1024 + l ∧ k * 1024 + l < vpn + n
    . have hfresh := h.fresh (k * 1024 + l - vpn) (by omega)
      rw [Nat.add_sub_cancel' hin.1] at hfresh
      rw [hfresh, isCached_zero] at hslot
      exact absurd hslot.1 (by decide)
    . rw [h.entry_kept _ (by unfold vpnEnd; omega) hin]
      exact hslot

/--
Two pages of the range have different frames.
-/
theorem MadePages.frame_inj (h : MadePages s₀ vpn n attr s) (hattr : isCached attr = true)
    (hend : vpn + n ≤ vpnEnd)
    {m m' : Nat} (hm : m < n) (hm' : m' < n) (heq : frameOf (s.entry (vpn + m)) = frameOf (s.entry (vpn + m')))
    : m = m' := by
  have hpage := h.refs_page hattr hend hm
  rw [heq] at hpage
  have hslot := h.wellFormed.owns.unique _ _ _ hpage (h.refs_page hattr hend hm')
  injection hslot with hdiv hmod
  omega

/--
The frames of the range were free before.
-/
theorem MadePages.frame_free (h : MadePages s₀ vpn n attr s) (hwf : s₀.WellFormed)
    (hattr : isCached attr = true) (hend : vpn + n ≤ vpnEnd) {m : Nat} (hm : m < n)
    : s₀.pmm.occupied (frameOf (s.entry (vpn + m))) = false := by
  have hpage := h.refs_page hattr hend hm
  rw [← Bool.not_eq_true]
  intro hoccupied
  cases (hwf.owns.used_iff _).mp hoccupied with
  | inl hstray =>
    have hstray' := (h.stray _).mpr hstray
    exact hstray'.2 _ hpage
  | inr href =>
    -- an entry that referred to the frame before would have to be the one of the page
    obtain ⟨slot, hslot⟩ := href
    have heq := h.wellFormed.owns.unique _ _ _ (h.refs_kept hwf slot _ hslot) hpage
    rw [heq, WellFormed.refs_table_iff hwf (by unfold vpnEnd at hend; omega) (by omega), Nat.div_add_mod',
      h.fresh m hm, isCached_zero] at hslot
    exact absurd hslot.1 (by decide)

theorem MadePages.reclaimable (h : MadePages s₀ vpn n attr s) (hbelow : s₀.FreeBelow)
    (hattr : isCached attr = true)
    (hend : vpn + n ≤ vpnEnd) {m : Nat} (hm : m < n) {page : Word} (hpage : page.toNat / 4096 = vpn + m)
    : Reclaimable s page := by
  obtain ⟨pa, hmade, hbounds⟩ := h.entry_made m hm
  obtain ⟨hpos, hlt⟩ := hbounds hbelow
  constructor
  . rw [hpage]
    omega
  . rw [hpage]
    exact h.cached hattr hm
  . rw [hpage]
    constructor
    . rw [hmade, frameOf_newL2Entry]
      exact hpos
    . rw [hmade, frameOf_newL2Entry, h.maxPg_eq]
      exact hlt

/--
After all pages of the range are unmapped again, only the new page tables are left.
-/
theorem MadePages.noTrace (h : MadePages s₀ vpn n attr s) (hwf : s₀.WellFormed) {pages : List Word}
    (hpages : ∀ v, v ∈ pages.map (·.toNat / 4096) ↔ vpn ≤ v ∧ v < vpn + n) (hunmapped : UnmappedEach s pages s')
    : NoTrace s₀ s' := by
  apply noTrace_of_stray hwf hunmapped.wellFormed
  . intro i hi hne
    rw [hunmapped.dir_eq]
    exact h.dir_kept i hi hne
  . intro v hv
    rw [hunmapped.entry_eq v hv, if_congr (hpages v) rfl rfl]
    split
    . next hin =>
      have hfresh := h.fresh (v - vpn) (by omega)
      rw [Nat.add_sub_cancel' hin.1] at hfresh
      exact hfresh.symm
    . next hout => exact h.entry_kept v hv hout
  . intro frame
    rw [hunmapped.stray, h.stray]

end MadePages

/--
What `vmm_alloc_pages` has done when it has returned `true`, and how it is undone. `pa` gives the physical
address of each page.
-/
structure RoundTrip (s : Machine) (va sz attr : Word) (s' : Machine) : Prop where
  unmapped : ∀ page, page ∈ pagesOf va sz → vmmLookup page s = .ok { pn := 0, pa := 0, flags := 0 } s
  mapped : ∃ pa : Word → Word,
    (∀ page, page ∈ pagesOf va sz →
      vmmLookup page s' = .ok
        { pn := pa page >>> 12, pa := pa page, flags := (pgEntryFlags attr).setWidth 16 } s'
        ∧ s.pmm.occupied (pa page >>> 12).toNat = false)
      ∧
    ∀ page other, page ∈ pagesOf va sz → other ∈ pagesOf va sz → pa page >>> 12 = pa other >>> 12 → page = other
  restored : ∀ pages, pages.Perm (pagesOf va sz) → ∃ s'', unmapEach pages s' = .ok () s'' ∧ NoTrace s s''

section RoundTrip

variable {s₀ s s' : Machine} {va sz attr : Word}

theorem toNat_pgEntryAddr_shift (entry : Word) : (pgEntryAddr entry >>> 12).toNat = frameOf entry := by
  rw [show pgEntryAddr entry = pgAlign entry from rfl, pgAlign_shift]
  rfl

theorem lookup_unmapped (h : s.WellFormed) {page : Word} (hempty : s.entry (page.toNat / 4096) = 0)
    : vmmLookup page s = .ok { pn := 0, pa := 0, flags := 0 } s := by
  rw [entry_va] at hempty
  rw [lookup_eq h.toSelfMapped h.tables, hempty]
  rfl

theorem MadePages.lookup_page (h : MadePages s₀ (va.toNat / 4096) (sz.toNat / 4096) attr s)
    (hattr : isCached attr = true)
    {page : Word} {m : Nat} (hm : m < sz.toNat / 4096) (hpage : page.toNat / 4096 = va.toNat / 4096 + m)
    : vmmLookup page s
        =
      .ok {
        pn := pgEntryAddr (s.entry (page.toNat / 4096)) >>> 12
        pa := pgEntryAddr (s.entry (page.toNat / 4096))
        flags := (pgEntryFlags attr).setWidth 16
      } s := by
  obtain ⟨pa, hmade, _⟩ := h.entry_made m hm
  rw [← hpage] at hmade
  rw [hmade, lookup_eq h.wellFormed.toSelfMapped h.wellFormed.tables, ← entry_va, hmade]
  unfold VMapping.ofEntry
  rw [if_neg (newL2Entry_ne_zero hattr), pgEntryFlags_newL2Entry]
  rfl

theorem MadePages.roundTrip (h : MadePages s₀ (va.toNat / 4096) (sz.toNat / 4096) attr s) (hwf : s₀.WellFormed)
    (hbelow : s₀.FreeBelow) (hattr : isCached attr = true) (hend : va.toNat / 4096 + sz.toNat / 4096 ≤ vpnEnd)
    : RoundTrip s₀ va sz attr s := by
  constructor
  . intro page hmem
    obtain ⟨m, hm, _, hpage⟩ := mem_pagesOf hend hmem
    apply lookup_unmapped hwf
    rw [hpage]
    exact h.fresh m hm
  . refine ⟨fun page => pgEntryAddr (s.entry (page.toNat / 4096)), ?_, ?_⟩
    . intro page hmem
      obtain ⟨m, hm, _, hpage⟩ := mem_pagesOf hend hmem
      refine ⟨h.lookup_page hattr hm hpage, ?_⟩
      rw [toNat_pgEntryAddr_shift, hpage]
      exact h.frame_free hwf hattr hend hm
    . intro page other hmem hmem' heq
      obtain ⟨m, hm, haddr, hpage⟩ := mem_pagesOf hend hmem
      obtain ⟨m', hm', haddr', hpage'⟩ := mem_pagesOf hend hmem'
      have hframe := congrArg BitVec.toNat heq
      rw [toNat_pgEntryAddr_shift, toNat_pgEntryAddr_shift, hpage, hpage'] at hframe
      rw [haddr, haddr', h.frame_inj hattr hend hm hm' hframe]
  . intro pages hperm
    have hnumbers := hperm.map (·.toNat / 4096)
    rw [numbers_pagesOf hend] at hnumbers
    have hreclaimable : ∀ page, page ∈ pages → Reclaimable s page := by
      intro page hmem
      obtain ⟨m, hm, _, hpage⟩ := mem_pagesOf hend (hperm.mem_iff.mp hmem)
      exact h.reclaimable hbelow hattr hend hm hpage
    have hnodup : ((List.range (sz.toNat / 4096)).map (va.toNat / 4096 + ·)).Nodup := by
      apply List.Pairwise.map _ _ List.nodup_range
      intro a b hne heq
      exact hne (Nat.add_left_cancel heq)
    obtain ⟨s'', hresult, hunmapped⟩ :=
      unmapEach_unmapped h.wellFormed pages (hnumbers.nodup_iff.mpr hnodup) hreclaimable
    refine ⟨s'', hresult, h.noTrace hwf ?_ hunmapped⟩
    intro v
    rw [hnumbers.mem_iff, List.mem_map]
    constructor
    . rintro ⟨m, hm, heq⟩
      rw [List.mem_range] at hm
      omega
    . rintro ⟨hge, hlt⟩
      exact ⟨v - va.toNat / 4096, List.mem_range.mpr (by omega), Nat.add_sub_cancel' hge⟩

end RoundTrip

/--
To allocate pages and to unmap them again is a round trip, but for the page tables that were made.
-/
theorem vmmAllocPages_roundTrip {s s' : Machine} (h : s.WellFormed) (hbelow : s.FreeBelow) {va sz attr : Word}
    (hva : pgOffset va = 0) (hsz : pgOffset sz = 0) (hend : va.toNat + sz.toNat ≤ 0xFFC00000)
    (hattr : hasFlags attr pgPresent = true) (hresult : vmmAllocPages va sz attr s = .ok true s')
    : RoundTrip s va sz attr s' := by
  have hcached : isCached attr = true := by rw [← hasFlags_pgPresent, hattr]
  have hrange := toNat_range hva hsz hend
  have hcases := vmmAllocPages_cases h va sz hrange hcached
  rw [hresult] at hcases
  cases hcases with
  | done _ hmade => exact hmade.roundTrip h hbelow hcached hrange

theorem vmmAllocPages_roundTrip_bootMachine
    : ∃ s', vmmAllocPages 0x7FF000 0x2000 3 bootMachine = .ok true s'
        ∧ RoundTrip bootMachine 0x7FF000 0x2000 3 s' := by
  have hcan : bootMachine.CanMap 0x7FF 2 := by
    constructor
    . intro m hm
      exact not_not.mp (@not_mapped_of_directory bootMachine rfl rfl (0x7FF + m) (by unfold vpnEnd; omega))
    . exact supplies_bootMachine.mono (by decide)
  obtain ⟨made, s', hresult, hmade, _⟩ := vmmAllocPages_iff wellFormed_bootMachine 0x7FF000 0x2000 (by decide)
    (show isCached 3 = true by decide)
  rw [hmade.mpr hcan] at hresult
  exact ⟨s', hresult, vmmAllocPages_roundTrip wellFormed_bootMachine freeBelow_bootMachine (by decide)
    (by decide) (by decide) (by decide) hresult⟩

end AwaOS
