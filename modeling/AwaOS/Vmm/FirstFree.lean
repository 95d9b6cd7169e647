import AwaOS.Vmm.AllocFailure
import AwaOS.Vmm.Search
import Mathlib.Data.Nat.Find

/-!
`vmm_map_page` looks for the first page that is not mapped. After the carry it reads the next page table
without a check that it is there, so what it finds depends on the tables that follow.
-/

namespace AwaOS

open Machine

/--
Page table `i` was made between `s` and `s'`.
-/
def NewTable (s s' : Machine) (i : Nat) : Prop :=
  i < 1023 ∧ s.dir i = 0 ∧ s'.dir i ≠ 0

/--
`vmm_lookup` shows the same for `va`, unless this is where the window shows a new page table.
-/
def SameLookup (s s' : Machine) (va : Word) : Prop :=
  (∃ mapping, vmmLookup va s = .ok mapping s ∧ vmmLookup va s' = .ok mapping s')
    ∨
  (l1Index va = 1023 ∧ NewTable s s' (l2Index va))

section Lookup

variable {s s' : Machine}

theorem Machine.SelfMapped.pte_window (h : s.SelfMapped) (j : Nat) : s.pte 1023 j = s.dir j := by
  unfold pte
  rw [if_neg (ne_zero_of_isCached h.present), h.table_self]

/--
What makes `vmm_lookup` show the same.
-/
theorem sameLookup_of (h : s.SelfMapped) (htables : ∀ i, i < 1023 → s.dir i = 0 ∨ isCached (s.dir i) = true)
    (h' : s'.SelfMapped) (htables' : ∀ i, i < 1023 → s'.dir i = 0 ∨ isCached (s'.dir i) = true)
    (hkept : ∀ i, i < 1024 → s.dir i ≠ 0 → s'.dir i = s.dir i) (va : Word)
    (hentry : l1Index va < 1023 → s'.entry (va.toNat / 4096) = s.entry (va.toNat / 4096))
    : SameLookup s s' va := by
  unfold SameLookup
  rw [lookup_eq h htables, lookup_eq h' htables']
  have hl1 := l1Index_lt va
  by_cases hlast : l1Index va = 1023
  . rw [hlast, h.pte_window, h'.pte_window]
    by_cases hzero : s.dir (l2Index va) = 0
    . by_cases hzero' : s'.dir (l2Index va) = 0
      . left
        rw [hzero, hzero']
        exact ⟨_, rfl, rfl⟩
      . right
        have hne : l2Index va ≠ 1023 := by
          intro heq
          rw [heq] at hzero
          exact ne_zero_of_isCached h.present hzero
        have hl2 := l2Index_lt va
        exact ⟨rfl, by omega, hzero, hzero'⟩
    . left
      rw [hkept _ (l2Index_lt va) hzero]
      exact ⟨_, rfl, rfl⟩
  . left
    have hsame := hentry (by omega)
    rw [entry_va, entry_va] at hsame
    rw [hsame]
    exact ⟨_, rfl, rfl⟩

theorem Machine.MadeEntry.sameLookup {vpn : Nat} {pa attr : Word} (h : s.Tabled)
    (hmade : MadeEntry s vpn pa attr s') (va : Word) (hne : va.toNat / 4096 ≠ vpn)
    : SameLookup s s' va := by
  apply sameLookup_of h.toSelfMapped h.tables hmade.recursive.toSelfMapped hmade.tables hmade.dir_kept
  intro hslot
  exact hmade.entry_other _ (page_lt_vpnEnd_iff.mpr hslot) hne

theorem Machine.MadeEntry.lookup_self {va pa attr : Word} (hmade : MadeEntry s (va.toNat / 4096) pa attr s')
    (hattr : isCached attr = true)
    : vmmLookup va s'
        =
      .ok { flags := (pgEntryFlags attr).setWidth 16, pa := pgAlign pa, pn := pgAlign pa >>> 12 } s' := by
  have hself := hmade.entry_self
  rw [entry_va] at hself
  rw [lookup_eq hmade.recursive.toSelfMapped hmade.tables, hself]
  unfold VMapping.ofEntry
  rw [if_neg (newL2Entry_ne_zero hattr), pgEntryAddr_newL2Entry, pgEntryFlags_newL2Entry]
  rfl

end Lookup

/--
`r` is the first page at or above `va` that is not mapped, below the window onto the page tables.
-/
structure FirstFree (s : Machine) (va r : Word) : Prop where
  aligned : pgOffset r = 0
  ge : va.toNat ≤ r.toNat
  below : r.toNat < 0xFFC00000
  free : ¬s.Mapped (r.toNat / 4096)
  least : ∀ w : Word, pgOffset w = 0 → va.toNat ≤ w.toNat → w.toNat < 0xFFC00000 → ¬s.Mapped (w.toNat / 4096) →
    r.toNat ≤ w.toNat

/--
What `vmm_map_page` is for.
-/
structure FindsFirstFree (s : Machine) (va pa attr : Word) : Prop where
  reads : ∀ p ∈ vmmMapPage.searchReads s (l1Index va) (l2Index va) (l2Index_le va) (s.dir (l1Index va)),
    p.1 < 1023 ∧ s.dir p.1 ≠ 0
  returns : ∃ r s', vmmMapPage va pa attr s = .ok r s'
  mapped : ∀ r s', vmmMapPage va pa attr s = .ok r s' → r ≠ 0 →
    FirstFree s va r
      ∧ vmmLookup r s' = .ok { flags := (pgEntryFlags attr).setWidth 16, pa := pa, pn := pa >>> 12 } s'
      ∧ ∀ w : Word, w.toNat / 4096 ≠ r.toNat / 4096 → SameLookup s s' w
  null : ∀ s', vmmMapPage va pa attr s = .ok 0 s' →
    ((∀ r, ¬FirstFree s va r) ∨ ∃ r, FirstFree s va r ∧ s.dir (l1Index r) = 0 ∧ (pmmAllocPage s.pmm).1 = 0)
      ∧ SameFrames s s'

/--
Some page at or above `va` is not mapped, and all page tables up to its own one are there.
-/
def Machine.FreeAhead (s : Machine) (va : Word) : Prop :=
  ∃ v, va.toNat / 4096 ≤ v ∧ v < vpnEnd ∧ ¬s.Mapped v ∧ ∀ i, l1Index va ≤ i → i ≤ v / 1024 → s.dir i ≠ 0

theorem toNat_pageAddr {v : Nat} (hv : v < vpnEnd) {va : Word} (hva : pgOffset va = 0)
    : (vAddr (v / 1024) (v % 1024) (pgOffset va)).toNat = v * 4096 := by
  have hzero : (0 : Word).toNat = 0 := by decide
  unfold vpnEnd at hv
  rw [hva, toNat_vAddr (by omega) (by omega) (by decide), Nat.div_add_mod', hzero, Nat.add_zero]

section FirstFree

variable {s : Machine} {va : Word}

theorem firstFree_page (hva : pgOffset va = 0) {v : Nat} (hge : va.toNat / 4096 ≤ v) (hv : v < vpnEnd)
    (hfree : ¬s.Mapped v) (hleast : ∀ u, va.toNat / 4096 ≤ u → u < v → s.Mapped u)
    : FirstFree s va (vAddr (v / 1024) (v % 1024) (pgOffset va)) := by
  have haddr := toNat_pageAddr hv hva
  have hva' := toNat_of_aligned hva
  constructor
  . apply BitVec.eq_of_toNat_eq
    rw [toNat_pgOffset, haddr, Nat.mul_mod_left]
    rfl
  . rw [haddr]
    omega
  . rw [haddr]
    unfold vpnEnd at hv
    omega
  . rw [haddr, Nat.mul_div_cancel _ (by decide)]
    exact hfree
  . intro w hw hgew _ hfreew
    have hw' := toNat_of_aligned hw
    rw [haddr]
    by_contra hlt
    exact hfreew (hleast _ (by omega) (by omega))

/--
The first of the pages that make `FreeAhead` true.
-/
theorem Machine.FreeAhead.least (h : s.FreeAhead va)
    : ∃ v, va.toNat / 4096 ≤ v ∧ v < vpnEnd ∧ ¬s.Mapped v
        ∧ (∀ i, l1Index va ≤ i → i ≤ v / 1024 → s.dir i ≠ 0)
        ∧ ∀ u, va.toNat / 4096 ≤ u → u < v → s.Mapped u := by
  classical
  have hleast := @Nat.find_min _ _ h
  obtain ⟨hge, hv, hfree, hdir⟩ := Nat.find_spec h
  refine ⟨Nat.find h, hge, hv, hfree, hdir, ?_⟩
  intro u hgeu hlt
  by_contra hfreeu
  refine hleast hlt ⟨hgeu, by omega, hfreeu, fun i hi hle => hdir i hi ?_⟩
  omega

theorem Machine.Tabled.full_of_mapped (h : s.Tabled) {u : Nat} (hu : u < vpnEnd) (hmapped : s.Mapped u)
    : isCached (s.dir (u / 1024)) = true ∧ s.table (u / 1024) (u % 1024) ≠ 0 := by
  have hne := dir_ne_zero_of_mapped hmapped
  unfold vpnEnd at hu
  unfold Mapped pte at hmapped
  rw [if_neg hne] at hmapped
  exact ⟨h.isCached_dir (by omega) hne, hmapped⟩

theorem pos_va (va : Word) : l1Index va * 1024 + l2Index va = va.toNat / 4096 := by
  rw [l1Index_eq, l2Index_eq]
  omega

/--
The search ends at the first page that is not mapped.
-/
theorem search_firstFree (h : s.Tabled) (pa tattr : Word) {v : Nat} (hge : va.toNat / 4096 ≤ v)
    (hv : v < vpnEnd) (hfree : ¬s.Mapped v) (hdir : ∀ i, l1Index va ≤ i → i ≤ v / 1024 → s.dir i ≠ 0)
    (hleast : ∀ u, va.toNat / 4096 ≤ u → u < v → s.Mapped u)
    : vmmMapPage.search pa tattr (l1Index va) (l2Index va) (l2Index_le va) (s.dir (l1Index va)) s
          = .ok (.mapped (v / 1024) (v % 1024)) (s.setTable (v / 1024) (v % 1024) (newL2Entry tattr pa))
        ∧ ∀ p ∈ vmmMapPage.searchReads s (l1Index va) (l2Index va) (l2Index_le va) (s.dir (l1Index va)),
            p.1 < 1023 ∧ s.dir p.1 ≠ 0 := by
  have hl1 : l1Index va ≤ v / 1024 := by
    rw [l1Index_eq]
    omega
  have hne := hdir _ (Nat.le_refl _) hl1
  have hlast := hdir _ hl1 (Nat.le_refl _)
  have hempty : s.table (v / 1024) (v % 1024) = 0 := by
    unfold Mapped pte at hfree
    rw [if_neg hlast, not_not] at hfree
    exact hfree
  have hsmall : v < 1024 * 1024 := by
    unfold vpnEnd at hv
    omega
  have hpresent := h.isCached_dir (by unfold vpnEnd at hv; omega) hlast
  obtain ⟨l1Inx, l2Inx, hl2, hpassed⟩ :=
    vmmMapPage.search_passes h.toSelfMapped pa tattr (l2Index_le va) (pos_va va) hge
    (Nat.le_of_lt hsmall) hne (fun u hgeu hlt => h.full_of_mapped (by omega) (hleast u hgeu hlt))
  obtain ⟨hsearch, hreads⟩ :=
    vmmMapPage.search_free h.toSelfMapped pa tattr hl2 hpassed.pos hsmall hpassed.dir_ne hpresent hempty
  obtain ⟨passed, hsplit, hpages⟩ := hpassed.reads_eq
  constructor
  . rw [hpassed.rest, hsearch]
  . intro p hp
    rw [hsplit, hreads, List.mem_append, List.mem_singleton] at hp
    cases hp with
    | inl hmem =>
      obtain ⟨u, hgeu, hlt, heq⟩ := hpages p hmem
      rw [heq]
      unfold vpnEnd at hv
      exact ⟨by dsimp only; omega, dir_ne_zero_of_mapped (hleast u hgeu hlt)⟩
    | inr heq =>
      rw [heq]
      unfold vpnEnd at hv
      exact ⟨by dsimp only; omega, hlast⟩

/--
The search reads the entry at which it is.
-/
theorem mem_searchReads (h : s.SelfMapped) {l1Inx l2Inx v : Nat} (hl2 : l2Inx ≤ pgMaxEntries)
    (hv : l1Inx * 1024 + l2Inx = v) (hlt : v < 1024 * 1024) (hne : s.dir l1Inx ≠ 0)
    : (v / 1024, v % 1024) ∈ vmmMapPage.searchReads s l1Inx l2Inx hl2 (s.dir l1Inx) := by
  cases hpresent : isCached (s.dir (v / 1024)) with
  | false =>
    rw [(vmmMapPage.search_absent h 0 0 hl2 hv hlt hne hpresent).2]
    exact List.mem_singleton_self _
  | true =>
    by_cases hempty : s.table (v / 1024) (v % 1024) = 0
    . rw [(vmmMapPage.search_free h 0 0 hl2 hv hlt hne hpresent hempty).2]
      exact List.mem_singleton_self _
    . rw [(vmmMapPage.search_full h 0 0 hl2 hv hlt hne hpresent hempty).2]
      exact List.mem_cons_self

theorem lt_vpnEnd {u k : Nat} (hk : k ≤ 1023) (hlt : u < k * 1024) : u < vpnEnd :=
  Nat.lt_of_lt_of_le hlt (Nat.mul_le_mul_right 1024 hk)

/--
With no free page ahead, the search goes on to a page table that is not there, or to the directory.
-/
theorem search_leaves (h : s.Tabled) (hslot : l1Index va < 1023) (hne : s.dir (l1Index va) ≠ 0)
    (hnone : ¬s.FreeAhead va)
    : ∃ p ∈ vmmMapPage.searchReads s (l1Index va) (l2Index va) (l2Index_le va) (s.dir (l1Index va)),
        ¬(p.1 < 1023 ∧ s.dir p.1 ≠ 0) := by
  classical
  have hend : ∃ i, l1Index va ≤ i ∧ (i = 1023 ∨ s.dir i = 0) := ⟨1023, by omega, Or.inl rfl⟩
  have hleast := @Nat.find_min _ _ hend
  obtain ⟨hge, hstop⟩ := Nat.find_spec hend
  have hle : Nat.find hend ≤ 1023 := Nat.find_min' hend ⟨by omega, Or.inl rfl⟩
  generalize Nat.find hend = k at hleast hge hstop hle
  have hgt : l1Index va < k := by
    refine Nat.lt_of_le_of_ne hge ?_
    intro heq
    rw [← heq] at hstop
    cases hstop with
    | inl hlast => omega
    | inr hzero => exact hne hzero
  have hahead : va.toNat / 4096 ≤ k * 1024 := by
    rw [l1Index_eq] at hgt
    omega
  have hfull : ∀ u, va.toNat / 4096 ≤ u → u < k * 1024 → s.Mapped u := by
    intro u hgeu hlt
    by_contra hfree
    refine hnone ⟨u, hgeu, lt_vpnEnd hle hlt, hfree, ?_⟩
    intro i hi hiu hzero
    exact hleast (by omega) ⟨hi, Or.inr hzero⟩
  obtain ⟨l1Inx, l2Inx, hl2', hpassed⟩ :=
    vmmMapPage.search_passes h.toSelfMapped 0 0 (l2Index_le va) (pos_va va)
    hahead (show k * 1024 ≤ 1024 * 1024 by omega) hne
      (fun u hgeu hlt => h.full_of_mapped (lt_vpnEnd hle hlt) (hfull u hgeu hlt))
  obtain ⟨passed, hsplit, _⟩ := hpassed.reads_eq
  have hmem := mem_searchReads h.toSelfMapped hl2' hpassed.pos (by omega) hpassed.dir_ne
  rw [Nat.mul_div_cancel _ (by decide), Nat.mul_mod_left] at hmem
  refine ⟨(k, 0), ?_, ?_⟩
  . rw [hsplit, List.mem_append]
    exact Or.inr hmem
  . rintro ⟨hlt, hdir⟩
    cases hstop with
    | inl hlast =>
      rw [hlast] at hlt
      exact absurd hlt (by decide)
    | inr hzero => exact hdir hzero

/--
Without a page table for `va` there is no search.
-/
theorem vmmMapPage_of_no_table (h : s.Tabled) {pa attr : Word} (hva : va ≠ 0) (hpa : pa ≠ 0)
    (hslot : l1Index va < 1023) (hzero : s.dir (l1Index va) = 0) (hattr : isCached attr = true)
    : ∃ made s', MapInternal s (va.toNat / 4096) pa attr false (.ok made s')
        ∧ vmmMapPage va pa attr s
            = .ok (if made = true then vAddr (l1Index va) (l2Index va) (pgOffset va) else 0) s' := by
  obtain ⟨made, s', hmap, hcases⟩ := vmmMapInternal_returns h (page_lt_vpnEnd_iff.mpr hslot) pa attr hattr false
  have hended := vmmMapPage.search_ended s pa attr (l1Index va) (l2Index va) (l2Index_le va)
  have hsmall : ¬l1Index va > pgMaxEntries := by
    unfold pgMaxEntries
    omega
  unfold vmmMapPage
  rw [if_neg (not_or.mpr ⟨hpa, hva⟩), bind_ok _ (h.load_l1 _ (l1Index_lt va)), hzero, bind_ok _ hended]
  dsimp only
  rw [if_neg hsmall, bind_ok _ hmap]
  refine ⟨made, s', hcases, ?_⟩
  cases made with
  | true => rfl
  | false => rfl

theorem vmmMapPage_of_firstFree (h : s.Tabled) {pa attr : Word} (hva : va ≠ 0) (hpa : pa ≠ 0) {v : Nat}
    (hge : va.toNat / 4096 ≤ v) (hv : v < vpnEnd) (hfree : ¬s.Mapped v)
    (hdir : ∀ i, l1Index va ≤ i → i ≤ v / 1024 → s.dir i ≠ 0)
    (hleast : ∀ u, va.toNat / 4096 ≤ u → u < v → s.Mapped u)
    : vmmMapPage va pa attr s
        =
      .ok (vAddr (v / 1024) (v % 1024) (pgOffset va))
        (s.setTable (v / 1024) (v % 1024) (newL2Entry attr pa)) := by
  obtain ⟨hsearch, _⟩ := search_firstFree h pa attr hge hv hfree hdir hleast
  unfold vmmMapPage
  rw [if_neg (not_or.mpr ⟨hpa, hva⟩), bind_ok _ (h.load_l1 _ (l1Index_lt va)), bind_ok _ hsearch]
  rfl

/--
A page that is not mapped is where the search ends.
-/
theorem vmmMapPage_unmapped (h : s.Tabled) {pa attr : Word} (hva : va ≠ 0) (hpa : pa ≠ 0)
    (hslot : l1Index va < 1023) (hfree : ¬s.Mapped (va.toNat / 4096)) (hattr : isCached attr = true)
    : ∃ made s', MapInternal s (va.toNat / 4096) pa attr false (.ok made s')
        ∧ vmmMapPage va pa attr s
            = .ok (if made = true then vAddr (l1Index va) (l2Index va) (pgOffset va) else 0) s' := by
  by_cases hzero : s.dir (l1Index va) = 0
  . exact vmmMapPage_of_no_table h hva hpa hslot hzero hattr
  . obtain ⟨hdiv, hmod⟩ := index_div va
    have hdir : ∀ i, l1Index va ≤ i → i ≤ va.toNat / 4096 / 1024 → s.dir i ≠ 0 := by
      intro i hge hle
      rw [hdiv] at hle
      rw [Nat.le_antisymm hle hge]
      exact hzero
    have hmap := @vmmMapPage_of_firstFree s va h pa attr hva hpa _ (Nat.le_refl _)
      (page_lt_vpnEnd_iff.mpr hslot) hfree hdir (fun u hge hlt => absurd hge (Nat.not_le.mpr hlt))
    refine ⟨true, _, .made ?_ (not_not.mp hfree), ?_⟩
    . rw [hdiv]
      exact hzero
    . rw [hmap, hdiv, hmod, if_pos rfl]

/--
`vmm_alloc_page` for a page that is not mapped.
-/
theorem vmmAllocPage_unmapped (h : s.WellFormed) {attr page : Word} (hslot : l1Index va < 1023)
    (hfree : ¬s.Mapped (va.toNat / 4096)) (hattr : isCached attr = true) {s' : Machine}
    (hresult : vmmAllocPage va attr s = .ok page s') (hne : page ≠ 0)
    : s'.WellFormed ∧ ∃ pa, MadeEntry s.allocated (va.toNat / 4096) pa attr s' := by
  unfold vmmAllocPage at hresult
  rw [bind_ok _ (callPmmAllocPage_eq s)] at hresult
  by_cases hnull : (pmmAllocPage s.pmm).1 = 0 ∨ va = 0
  . have hmap : vmmMapPage va (pmmAllocPage s.pmm).1 attr s.allocated = .ok 0 s.allocated := by
      unfold vmmMapPage
      rw [if_pos hnull]
      rfl
    rw [bind_ok _ hmap, if_pos rfl, bind_ok _ (callPmmFreePage_eq _ _)] at hresult
    obtain ⟨hpage, _⟩ := EStateM.Result.ok.inj hresult
    exact absurd hpage.symm hne
  . obtain ⟨hfound, hva⟩ := not_or.mp hnull
    obtain ⟨made, s₁, hcases, hmap⟩ := vmmMapPage_unmapped h.allocated.tabled hva hfound hslot hfree hattr
    cases made with
    | false =>
      rw [if_neg (by decide)] at hmap
      rw [bind_ok _ hmap, if_pos rfl, bind_ok _ (callPmmFreePage_eq _ _)] at hresult
      obtain ⟨hpage, _⟩ := EStateM.Result.ok.inj hresult
      exact absurd hpage.symm hne
    | true =>
      rw [if_pos rfl] at hmap
      rw [bind_ok _ hmap] at hresult
      have hend := page_lt_vpnEnd_iff.mpr hslot
      have hmade := hcases.madeEntry h.allocated.tabled hend hattr
      have hstray : s.allocated.Stray s.nextFrame := (h.toOwned.stray_allocated hfound _).mpr (Or.inr rfl)
      obtain ⟨hwf, _⟩ := hcases.wellFormed h.allocated hend hattr hstray
      by_cases hzero : vAddr (l1Index va) (l2Index va) (pgOffset va) = 0
      . rw [if_pos hzero, bind_ok _ (callPmmFreePage_eq _ _)] at hresult
        obtain ⟨hpage, _⟩ := EStateM.Result.ok.inj hresult
        rw [hzero] at hpage
        exact absurd hpage.symm hne
      . rw [if_neg hzero] at hresult
        obtain ⟨_, hs⟩ := EStateM.Result.ok.inj hresult
        subst hs
        exact ⟨hwf, _, hmade⟩

/--
A page that was mapped at `r` is what `vmm_lookup` shows there.
-/
theorem Machine.MadeEntry.mapped {s' : Machine} (h : s.Tabled) {r pa attr : Word} (hpa : pgOffset pa = 0)
    (hattr : isCached attr = true) (hmade : MadeEntry s (r.toNat / 4096) pa attr s')
    : vmmLookup r s' = .ok { flags := (pgEntryFlags attr).setWidth 16, pa := pa, pn := pa >>> 12 } s'
        ∧ ∀ w : Word, w.toNat / 4096 ≠ r.toNat / 4096 → SameLookup s s' w := by
  have hself := hmade.lookup_self hattr
  rw [pgAlign_of_aligned hpa] at hself
  exact ⟨hself, fun w hne => hmade.sameLookup h w hne⟩

end FirstFree

/--
`vmm_map_page` finds the first page that is not mapped if and only if there is no page table for `va`, or
some page is not mapped before the search gets to a page table that is not there, or to the window.
-/
theorem vmmMapPage_findsFirstFree_iff {s : Machine} (h : s.Tabled) {va pa attr : Word} (hva : pgOffset va = 0)
    (hvane : va ≠ 0) (hslot : l1Index va < 1023) (hpa : pgOffset pa = 0) (hpane : pa ≠ 0)
    (hattr : hasFlags attr pgPresent = true)
    : FindsFirstFree s va pa attr ↔ s.dir (l1Index va) = 0 ∨ s.FreeAhead va := by
  have hcached : isCached attr = true := by rw [← hasFlags_pgPresent, hattr]
  have hindex := index_div va
  constructor
  . intro hfinds
    by_contra hnot
    rw [not_or] at hnot
    obtain ⟨p, hmem, hbad⟩ := search_leaves h hslot hnot.1 hnot.2
    exact hbad (hfinds.reads p hmem)
  . rintro (hzero | hahead)
    . have hbelow := page_lt_vpnEnd_iff.mpr hslot
      have hfree : ¬s.Mapped (va.toNat / 4096) := by
        intro hmapped
        exact dir_ne_zero_of_mapped hmapped (by rw [hindex.1]; exact hzero)
      have hfirst := firstFree_page hva (Nat.le_refl _) hbelow hfree
        (fun u hge hlt => absurd hlt (Nat.not_lt.mpr hge))
      have haddr := toNat_pageAddr hbelow hva
      rw [hindex.1, hindex.2] at hfirst haddr
      have hpage : (vAddr (l1Index va) (l2Index va) (pgOffset va)).toNat / 4096 = va.toNat / 4096 := by
        rw [haddr, Nat.mul_div_cancel _ (by decide)]
      obtain ⟨made, s', hcases, hresult⟩ := vmmMapPage_of_no_table h hvane hpane hslot hzero hcached
      constructor
      . unfold vmmMapPage.searchReads
        rw [dif_neg (fun hand => hand.1 hzero)]
        simp
      . exact ⟨_, s', hresult⟩
      . intro r s'' hresult' hne
        obtain ⟨rfl, rfl⟩ := EStateM.Result.ok.inj (hresult.symm.trans hresult')
        cases made with
        | false => exact absurd rfl hne
        | true =>
          have hmade := hcases.madeEntry h hbelow hcached
          rw [if_pos rfl]
          rw [← hpage] at hmade
          exact ⟨hfirst, hmade.mapped h hpa hcached⟩
      . intro s'' hresult'
        obtain ⟨hnull, rfl⟩ := EStateM.Result.ok.inj (hresult.symm.trans hresult')
        cases made with
        | true =>
          -- the page itself is not at address zero
          rw [if_pos rfl] at hnull
          rw [hnull] at haddr
          have hzero' : 0 = va.toNat / 4096 * 4096 := haddr
          rw [← toNat_of_aligned hva] at hzero'
          exact absurd (BitVec.eq_of_toNat_eq hzero'.symm) hvane
        | false =>
          obtain ⟨hsame, hcause⟩ := hcases.refused
          refine ⟨Or.inr ⟨_, hfirst, ?_, ?_⟩, hsame⟩
          . rw [← (index_div _).1, hpage, hindex.1]
            exact hzero
          . cases hcause with
            | inl hmapped => exact absurd hmapped hfree
            | inr hnull => exact hnull.2
    . obtain ⟨v, hge, hv, hfree, hdir, hleast⟩ := hahead.least
      have hresult := @vmmMapPage_of_firstFree s va h pa attr hvane hpane v hge hv hfree hdir hleast
      have hfirst := firstFree_page hva hge hv hfree hleast
      have haddr := toNat_pageAddr hv hva
      have hpage : (vAddr (v / 1024) (v % 1024) (pgOffset va)).toNat / 4096 = v := by
        rw [haddr, Nat.mul_div_cancel _ (by decide)]
      have hlast : s.dir (v / 1024) ≠ 0 := by
        refine hdir _ ?_ (Nat.le_refl _)
        rw [← hindex.1]
        exact Nat.div_le_div_right hge
      constructor
      . exact (search_firstFree h pa attr hge hv hfree hdir hleast).2
      . exact ⟨_, _, hresult⟩
      . intro r s' hresult' _
        obtain ⟨rfl, rfl⟩ := EStateM.Result.ok.inj (hresult.symm.trans hresult')
        have hmade := h.madeEntry_setTable pa attr hv hlast
        refine ⟨hfirst, ?_⟩
        apply Machine.MadeEntry.mapped h hpa hcached
        rw [hpage]
        exact hmade
      . intro s' hresult'
        obtain ⟨hnull, _⟩ := EStateM.Result.ok.inj (hresult.symm.trans hresult')
        rw [hnull] at haddr
        have hzero' : 0 = v * 4096 := haddr
        have hva' := toNat_of_aligned hva
        have hzero : va.toNat = (0 : Word).toNat := by
          change va.toNat = 0
          omega
        exact absurd (BitVec.eq_of_toNat_eq hzero) hvane

/--
A directory in frame 1 and page table 1 in frame 2, of which only the last entry is in use.
-/
def lastPageMapped : Machine where
  mem frame index :=
    if frame = 1 then
      if index = 1023 then 0x1013 else if index = 1 then 0x2003 else 0
    else
      if frame = 2 ∧ index = 1023 then 0x3003 else 0
  cr3 := 1
  pmm := pmmInit (fun _ => 0) 0x8000
  nullReturned := false

theorem occupied_lastPageMapped (frame : Nat) (hframe : frame < 2 ^ 20)
    : lastPageMapped.pmm.occupied frame = true :=
  occupied_pmmInit (fun _ => 0) 0x8000 frame hframe

theorem dir_lastPageMapped (i : Nat)
    : lastPageMapped.dir i = if i = 1023 then 0x1013 else if i = 1 then 0x2003 else 0 := by
  simp [lastPageMapped, dir]

theorem dir_lastPageMapped_ne {i : Nat} (hne : lastPageMapped.dir i ≠ 0) : i = 1023 ∨ i = 1 := by
  rw [dir_lastPageMapped] at hne
  by_contra hother
  rw [not_or] at hother
  rw [if_neg hother.1, if_neg hother.2] at hne
  exact hne rfl

theorem tabled_lastPageMapped : lastPageMapped.Tabled where
  present := by decide
  self := by decide
  distinct := by
    intro i j _ _ hine hjne heq
    rw [dir_lastPageMapped, dir_lastPageMapped] at heq
    cases dir_lastPageMapped_ne hine with
    | inl hi =>
      cases dir_lastPageMapped_ne hjne with
      | inl hj => rw [hi, hj]
      | inr hj =>
        rw [hi, hj] at heq
        exact absurd heq (by decide)
    | inr hi =>
      cases dir_lastPageMapped_ne hjne with
      | inl hj =>
        rw [hi, hj] at heq
        exact absurd heq (by decide)
      | inr hj => rw [hi, hj]
  occupied := fun _ _ _ => occupied_lastPageMapped _ (frameOf_lt _)
  tables := by
    intro i _
    rw [dir_lastPageMapped]
    by_cases hlast : i = 1023
    . right
      rw [if_pos hlast]
      decide
    . rw [if_neg hlast]
      by_cases hone : i = 1
      . right
        rw [if_pos hone]
        decide
      . left
        rw [if_neg hone]

theorem vmmMapPage_findsFirstFree_lastPageMapped : FindsFirstFree lastPageMapped 0x7FE000 0x5000 3 :=
  (vmmMapPage_findsFirstFree_iff tabled_lastPageMapped (by decide) (by decide) (by decide) (by decide) (by decide)
    (by decide)).mpr (Or.inr ⟨0x7FE, by decide, by decide, by decide, by
      intro i hge hle
      have hi : i = 1 := Nat.le_antisymm hle hge
      rw [hi]
      decide⟩)

/--
From the last page of the only page table on, the search reads an entry of page table 2, which is not
there.
-/
theorem vmmMapPage_leaves_page_table
    : ¬∀ (s : Machine) (va pa attr : Word), s.Tabled → pgOffset va = 0 → va ≠ 0 → l1Index va < 1023 →
        pgOffset pa = 0 → pa ≠ 0 → hasFlags attr pgPresent = true → FindsFirstFree s va pa attr := by
  intro hall
  have hfinds := hall lastPageMapped 0x7FF000 0x5000 3 tabled_lastPageMapped (by decide) (by decide) (by decide)
    (by decide) (by decide) (by decide)
  have hnone : ¬lastPageMapped.FreeAhead 0x7FF000 := by
    rintro ⟨v, hge, _, hfree, hdir⟩
    have hge' : 0x7FF ≤ v := hge
    by_cases hv : v = 0x7FF
    . rw [hv] at hfree
      exact hfree (by decide)
    . exact hdir 2 (by decide) (by omega) (by decide)
  obtain ⟨p, hmem, hbad⟩ := search_leaves tabled_lastPageMapped (by decide) (by decide) hnone
  exact hbad (hfinds.reads p hmem)

end AwaOS
