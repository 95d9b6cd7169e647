import AwaOS.Vmm.FirstFree

/-!
The rights that a mapping grants. The entry of the directory takes the attributes of the first mapping in its
four megabytes, and later mappings only get what it grants.
-/

namespace AwaOS

open Machine

/--
A call that maps pages.
-/
inductive MapCall where
  | setMapping (va pa attr : Word)
  | mapPage (va pa tattr : Word)
  | fmapPage (va pa tattr : Word)
  | allocPages (va sz tattr : Word)

namespace MapCall

def attr : MapCall → Word
  | setMapping _ _ attr => attr
  | mapPage _ _ tattr => tattr
  | fmapPage _ _ tattr => tattr
  | allocPages _ _ tattr => tattr

/--
The addresses of the call are below the window onto the page tables.
-/
def Below : MapCall → Prop
  | setMapping va _ _ => va.toNat < 0xFFC00000
  | mapPage va _ _ => va.toNat < 0xFFC00000
  | fmapPage va _ _ => va.toNat < 0xFFC00000
  | allocPages va sz _ => va.toNat + sz.toNat ≤ 0xFFC00000

/--
The call is successful, and maps `count` pages from page `first` on.
-/
inductive Succeeds (s : Machine) : MapCall → Machine → Nat → Nat → Prop
  | setMapping {va pa attr : Word} {s' : Machine} (hresult : vmmSetMapping va pa attr s = .ok () s')
      (hfree : ¬s.Mapped (va.toNat / 4096)) (hmapped : s'.Mapped (va.toNat / 4096))
      : Succeeds s (setMapping va pa attr) s' (va.toNat / 4096) 1
  | mapPage {va pa tattr r : Word} {s' : Machine} (hresult : vmmMapPage va pa tattr s = .ok r s') (hne : r ≠ 0)
      : Succeeds s (mapPage va pa tattr) s' (r.toNat / 4096) 1
  | fmapPage {va pa tattr r : Word} {s' : Machine} (hresult : vmmFmapPage va pa tattr s = .ok r s')
    (hne : r ≠ 0)
      : Succeeds s (fmapPage va pa tattr) s' (r.toNat / 4096) 1
  | allocPages {va sz tattr : Word} {s' : Machine} (hresult : vmmAllocPages va sz tattr s = .ok true s')
      : Succeeds s (allocPages va sz tattr) s' (va.toNat / 4096) (sz.toNat / 4096)

end MapCall

/--
A run of successful calls that all satisfy `Q`. `asked` holds the attributes of the call that mapped a page.
-/
inductive RightsRun (Q : Machine → MapCall → Prop) (s₀ : Machine) : Machine → (Nat → Word) → Prop
  | init : RightsRun Q s₀ s₀ (fun _ => 0)
  | call {s s' : Machine} {asked : Nat → Word} {first count : Nat} (hrun : RightsRun Q s₀ s asked) (c : MapCall)
      (hattr : c.attr ∈ [pgPremR, pgPremRw, pgPremUr, pgPremUrw]) (hbelow : c.Below) (hq : Q s c)
      (hsucceeds : c.Succeeds s s' first count)
      : RightsRun Q s₀ s' (fun v => if first ≤ v ∧ v < first + count then c.attr else asked v)

/--
The bits of an entry for writing and for the user.
-/
def rights (entry : Word) : Word :=
  entry &&& (pgWrite ||| pgAllowUser)

/--
The rights that the translation of a page has.
-/
def Machine.effectiveRights (s : Machine) (vpn : Nat) : Word :=
  rights (s.dir (vpn / 1024) &&& s.entry vpn)

/--
Every mapped address has the rights that were asked for.
-/
def GrantsAsked (s : Machine) (asked : Nat → Word) : Prop :=
  ∀ va : Word, va.toNat < 0xFFC00000 → s.Mapped (va.toNat / 4096) →
    s.effectiveRights (va.toNat / 4096) = rights (asked (va.toNat / 4096))

/--
A directory without page tables.
-/
structure Machine.EmptyDirectory (s : Machine) : Prop extends s.Tabled where
  empty : ∀ i, i < 1023 → s.dir i = 0

/--
The page table of a page is not there yet, or its entry in the directory has the rights of `attr`.
-/
def Machine.CanGrant (s : Machine) (attr : Word) (vpn : Nat) : Prop :=
  s.dir (vpn / 1024) = 0 ∨ rights (s.dir (vpn / 1024) &&& attr) = rights attr

/--
The page that `vmm_map_page` maps: that of `va` if there is no page table for it, the first one that is not mapped
if all page tables up to it are there.
-/
def Machine.SearchEnds (s : Machine) (va : Word) (vpn : Nat) : Prop :=
  (s.dir (l1Index va) = 0 ∧ vpn = va.toNat / 4096)
    ∨ (va.toNat / 4096 ≤ vpn ∧ vpn < vpnEnd ∧ ¬s.Mapped vpn
      ∧ (∀ i, l1Index va ≤ i → i ≤ vpn / 1024 → s.dir i ≠ 0)
      ∧ ∀ u, va.toNat / 4096 ≤ u → u < vpn → s.Mapped u)

/--
The frame of a page, if it is mapped, is not that of the directory or of a page table.
-/
def Machine.NoTableAt (s : Machine) (vpn : Nat) : Prop :=
  s.Mapped vpn → ∀ i, i < 1024 → s.dir i ≠ 0 → frameOf (s.dir i) ≠ frameOf (s.entry vpn)

/--
All pages of a call can be granted its attributes, and it does not free a page table.
-/
def MapCall.Grantable (s : Machine) : MapCall → Prop
  | setMapping va _ attr => s.CanGrant attr (va.toNat / 4096)
  | mapPage va _ tattr => ∃ vpn, s.SearchEnds va vpn ∧ s.CanGrant tattr vpn
  | fmapPage va _ tattr => s.CanGrant tattr (va.toNat / 4096) ∧ s.NoTableAt (va.toNat / 4096)
  | allocPages va sz tattr => ∀ n, n < sz.toNat / 4096 → s.CanGrant tattr (va.toNat / 4096 + n)

theorem rights_and (a b : Word) : rights (a &&& b) = rights a &&& rights b := by
  unfold rights
  ac_rfl

theorem rights_newL2Entry (attr pa : Word) : rights (newL2Entry attr pa) = rights attr := by
  have hmask : pgWrite ||| pgAllowUser = 0xFFF#32 &&& (pgWrite ||| pgAllowUser) := by decide
  have hflags := pgEntryFlags_newL2Entry attr pa
  unfold pgEntryFlags at hflags
  unfold rights
  rw [hmask, ← BitVec.and_assoc, ← BitVec.and_assoc, hflags]

theorem rights_newL1Entry (attr pa : Word) : rights (newL1Entry attr pa) = rights attr := by
  rw [newL1Entry_eq, rights_newL2Entry]

/--
What every run keeps: the rights of a page are those in the directory and in the page table at once.
-/
structure RightsInv (s : Machine) (asked : Nat → Word) : Prop where
  tabled : s.Tabled
  granted : ∀ v, v < vpnEnd → s.Mapped v → s.effectiveRights v = rights (asked v)

section Tabled

variable {s s' : Machine} {vpn : Nat} {pa attr : Word}

theorem occupied_released_of_ne (s : Machine) (page : Word) {frame : Nat} (hne : frame ≠ (page >>> 12).toNat)
    (hoccupied : s.pmm.occupied frame = true)
    : (s.released page).pmm.occupied frame = true := by
  rw [pmm_released]
  unfold pmmFreePage
  dsimp only
  split
  . rw [occupied_pmmMarkPageFree, Bool.and_eq_true, decide_eq_true_eq]
    exact ⟨hne, hoccupied⟩
  . exact hoccupied

theorem Machine.Tabled.releasedEntry (h : s.Tabled) (entry : Word)
    (hother : ∀ i, i < 1024 → s.dir i ≠ 0 → frameOf (s.dir i) ≠ frameOf entry)
    : (s.releasedEntry entry).Tabled where
  toRecursive := h.toRecursive.congr (s.releasedEntry_mem entry) (s.releasedEntry_cr3 entry)
  occupied := by
    intro i hi
    rw [dir_congr (s.releasedEntry_mem entry) (s.releasedEntry_cr3 entry)]
    intro hne
    have hoccupied := h.occupied i hi hne
    unfold Machine.releasedEntry
    split
    . apply occupied_released_of_ne _ _ _ hoccupied
      rw [pgAlign_shift]
      exact hother i hi hne
    . exact hoccupied
  tables := by
    intro i hi
    rw [dir_congr (s.releasedEntry_mem entry) (s.releasedEntry_cr3 entry)]
    exact h.tables i hi

/--
A call that maps its page keeps the page tables in order, if it does not free one of them.
-/
theorem MapInternal.tabled {forced : Bool} (h : s.Tabled) (hvpn : vpn < vpnEnd) (hattr : isCached attr = true)
    (hcases : MapInternal s vpn pa attr forced (.ok true s')) (hkept : forced = true → s.NoTableAt vpn)
    : s'.Tabled := by
  have hi : vpn / 1024 < 1023 := by
    unfold vpnEnd at hvpn
    omega
  cases hcases with
  | made hdir hempty => exact h.setTable _ _ _ hi hdir
  | madeTable hzero hfound =>
    apply (h.installTable (vpn / 1024) attr hi hfound hattr).setTable _ _ _ hi
    rw [h.dir_installTable (vpn / 1024) attr hfound, if_pos rfl]
    exact newTable_ne_zero hattr
  | replaced hne hforced =>
    have hdir : s.dir (vpn / 1024) ≠ 0 := fun hzero => hne (entry_of_absent hzero)
    apply (h.releasedEntry (s.entry vpn) (hkept hforced hne)).setTable _ _ _ hi
    rw [dir_congr (s.releasedEntry_mem _) (s.releasedEntry_cr3 _)]
    exact hdir

/--
A page table that was made for `attr` has its rights.
-/
theorem Machine.CanGrant.made {u : Nat} (h : s.CanGrant attr u) (hu : u < vpnEnd)
    (hmade : MadeEntry s vpn pa attr s')
    : s'.CanGrant attr u := by
  unfold vpnEnd at hu
  by_cases hzero : s.dir (u / 1024) = 0
  . by_cases hself : u / 1024 = vpn / 1024
    . right
      rw [hself] at hzero ⊢
      rw [hmade.dir_self hzero, rights_and]
      unfold newTable
      rw [rights_newL1Entry]
      exact BitVec.and_self
    . left
      rw [hmade.dir_other _ (by omega) hself]
      exact hzero
  . unfold CanGrant
    rw [hmade.dir_kept _ (by omega) hzero]
    exact h

/--
The page that was mapped has the rights of `attr`, and all others have those they had.
-/
theorem RightsInv.made {asked : Nat → Word} (h : RightsInv s asked) (hvpn : vpn < vpnEnd)
    (hgrant : s.CanGrant attr vpn) (hmade : MadeEntry s vpn pa attr s') (htabled : s'.Tabled)
    : RightsInv s' (fun v => if v = vpn then attr else asked v) where
  tabled := htabled
  granted := by
    intro v hv hmapped
    unfold effectiveRights
    by_cases hself : v = vpn
    . subst hself
      rw [if_pos rfl, hmade.entry_self, rights_and, rights_newL2Entry]
      have hafter := hgrant.made hvpn hmade
      cases hafter with
      | inl hzero => exact absurd hzero (dir_ne_zero_of_mapped hmapped)
      | inr hrights =>
        rw [rights_and] at hrights
        exact hrights
    . have hentry := hmade.entry_other v hv hself
      have hbefore : s.Mapped v := by
        have hne : s'.entry v ≠ 0 := hmapped
        rw [hentry] at hne
        exact hne
      have hdir := hmade.dir_kept (v / 1024) (by unfold vpnEnd at hv; omega) (dir_ne_zero_of_mapped hbefore)
      rw [if_neg hself, hentry, hdir]
      exact h.granted v hv hbefore

theorem RightsInv.allocated {asked : Nat → Word} (h : RightsInv s asked) : RightsInv s.allocated asked where
  tabled := h.tabled.allocated
  granted := h.granted

end Tabled

section Calls

variable {s s' : Machine} {asked : Nat → Word} {va pa attr : Word}

/--
`__vmm_map_internal` for the page of `va`.
-/
theorem RightsInv.mapInternal {vpn : Nat} {forced : Bool} (h : RightsInv s asked) (hvpn : vpn < vpnEnd)
    (hattr : isCached attr = true) (hgrant : s.CanGrant attr vpn)
    (hcases : MapInternal s vpn pa attr forced (.ok true s')) (hkept : forced = true → s.NoTableAt vpn)
    : RightsInv s' (fun v => if v = vpn then attr else asked v) :=
  h.made hvpn hgrant (hcases.madeEntry h.tabled hvpn hattr) (hcases.tabled h.tabled hvpn hattr hkept)

theorem vmmSetMapping_mapInternal (h : s.Tabled) (hva : va.toNat / 4096 < vpnEnd) (hattr : isCached attr = true)
    (hresult : vmmSetMapping va pa attr s = .ok () s')
    : ∃ made, MapInternal s (va.toNat / 4096) pa attr false (.ok made s') := by
  have hslot : ¬l1Index va = 1023 := Nat.ne_of_lt (page_lt_vpnEnd_iff.mp hva)
  obtain ⟨made, s₁, hmap, hcases⟩ := vmmMapInternal_returns h hva pa attr hattr false
  unfold vmmSetMapping at hresult
  rw [if_neg hslot, bind_ok _ hmap] at hresult
  obtain ⟨_, hs⟩ := EStateM.Result.ok.inj hresult
  subst hs
  exact ⟨made, hcases⟩

theorem vmmFmapPage_mapInternal (h : s.Tabled) (hva : va.toNat / 4096 < vpnEnd)
    (hattr : isCached attr = true) {r : Word} (hresult : vmmFmapPage va pa attr s = .ok r s') (hne : r ≠ 0)
    : r = vAddr (l1Index va) (l2Index va) (pgOffset va)
        ∧ MapInternal s (va.toNat / 4096) pa attr true (.ok true s') := by
  obtain ⟨made, s₁, hmap, hcases⟩ := vmmMapInternal_returns h hva pa attr hattr true
  unfold vmmFmapPage at hresult
  split at hresult
  . obtain ⟨hr, _⟩ := EStateM.Result.ok.inj hresult
    exact absurd hr.symm hne
  . rw [bind_ok _ hmap] at hresult
    cases made with
    | false =>
      obtain ⟨hr, _⟩ := EStateM.Result.ok.inj hresult
      exact absurd hr.symm hne
    | true =>
      obtain ⟨hr, hs⟩ := EStateM.Result.ok.inj hresult
      subst hs
      exact ⟨hr.symm, hcases⟩

/--
The page of the address that a mapping returns.
-/
theorem page_vAddr {vpn : Nat} (hvpn : vpn < vpnEnd) (va : Word)
    : (vAddr (vpn / 1024) (vpn % 1024) (pgOffset va)).toNat / 4096 = vpn := by
  have hoffset : (pgOffset va).toNat < 4096 := by
    rw [toNat_pgOffset]
    omega
  unfold vpnEnd at hvpn
  rw [toNat_vAddr (by omega) (by omega) hoffset, Nat.div_add_mod']
  omega

theorem vmmMapPage_mapInternal (h : s.Tabled) {vpn : Nat} (hva : va.toNat / 4096 < vpnEnd)
    (hattr : isCached attr = true)
    (hends : s.SearchEnds va vpn) {r : Word} (hresult : vmmMapPage va pa attr s = .ok r s') (hne : r ≠ 0)
    : vpn < vpnEnd ∧ r.toNat / 4096 = vpn ∧ MapInternal s vpn pa attr false (.ok true s') := by
  have hslot := page_lt_vpnEnd_iff.mp hva
  by_cases hnull : pa = 0 ∨ va = 0
  . unfold vmmMapPage at hresult
    rw [if_pos hnull] at hresult
    obtain ⟨hr, _⟩ := EStateM.Result.ok.inj hresult
    exact absurd hr.symm hne
  . obtain ⟨hpa, hvane⟩ := not_or.mp hnull
    cases hends with
    | inl hnone =>
      obtain ⟨hzero, rfl⟩ := hnone
      obtain ⟨made, s₁, hcases, hmap⟩ := vmmMapPage_of_no_table h hvane hpa hslot hzero hattr
      obtain ⟨hr, hs⟩ := EStateM.Result.ok.inj (hmap.symm.trans hresult)
      subst hs
      cases made with
      | false => exact absurd hr.symm hne
      | true =>
        have hpage := page_vAddr hva va
        rw [(index_div va).1, (index_div va).2] at hpage
        rw [if_pos rfl] at hr
        rw [← hr]
        exact ⟨hva, hpage, hcases⟩
    | inr hfirst =>
      obtain ⟨hge, hvpn, hfree, hdir, hleast⟩ := hfirst
      have hmap := @vmmMapPage_of_firstFree s va h pa attr hvane hpa vpn hge hvpn hfree hdir hleast
      obtain ⟨hr, hs⟩ := EStateM.Result.ok.inj (hmap.symm.trans hresult)
      have hl1 : l1Index va ≤ vpn / 1024 := by
        rw [l1Index_eq]
        omega
      subst hs
      rw [← hr]
      exact ⟨hvpn, page_vAddr hvpn va, .made (hdir _ hl1 (Nat.le_refl _)) (not_not.mp hfree)⟩

/--
The pages of `vmm_alloc_pages`, from page `i` on.
-/
theorem RightsInv.allocPages {va_ : Word} {i count : Nat} (h : RightsInv s asked) (hattr : isCached attr = true)
    (hend : va_.toNat / 4096 + count ≤ vpnEnd)
    (hgrant : ∀ n, n < count → s.CanGrant attr (va_.toNat / 4096 + n))
    (hresult : vmmAllocPages.go va attr i va_ count s = .ok true s')
    : RightsInv s' (fun v => if va_.toNat / 4096 ≤ v ∧ v < va_.toNat / 4096 + count then attr else asked v) := by
  induction count generalizing s i va_ asked with
  | zero =>
    obtain ⟨_, hs⟩ := EStateM.Result.ok.inj hresult
    subst hs
    have hsame :
        (fun v => if va_.toNat / 4096 ≤ v ∧ v < va_.toNat / 4096 + 0 then attr else asked v) = asked := by
      funext v
      rw [if_neg (by omega)]
    rw [hsame]
    exact h
  | succ count ih =>
    have hnext := mapNext_cases h.tabled (show va_.toNat / 4096 < vpnEnd by omega) hattr
    unfold vmmAllocPages.go at hresult
    cases hmap : vmmAllocPages.mapNext va_ attr s with
    | error e s₁ =>
      rw [hmap] at hnext
      cases hnext
    | ok made s₁ =>
      rw [hmap] at hnext
      rw [bind_ok _ hmap] at hresult
      cases made with
      | false =>
        simp only [Bool.not_false, ↓reduceIte] at hresult
        cases hunmap : vmmUnmapPages va i s₁ with
        | error e s₂ =>
          rw [bind_error _ hunmap] at hresult
          cases hresult
        | ok _ s₂ =>
          rw [bind_ok _ hunmap] at hresult
          cases hresult
      | true =>
        simp only [Bool.not_true, Bool.false_eq_true, ↓reduceIte] at hresult
        have hsucc := next_page (show va_.toNat / 4096 < vpnEnd by omega)
        cases hnext with
        | made _ hfound hcases =>
          have hfirst : s.allocated.CanGrant attr (va_.toNat / 4096) := hgrant 0 (by omega)
          have hmade := hcases.madeEntry h.tabled.allocated (show va_.toNat / 4096 < vpnEnd by omega) hattr
          have hinv := h.allocated.mapInternal (by omega) hattr hfirst hcases Bool.noConfusion
          have hrest := ih hinv (by omega) (fun n hn => by
            rw [hsucc, Nat.add_assoc, Nat.add_comm 1 n]
            have hlater : s.allocated.CanGrant attr (va_.toNat / 4096 + (n + 1)) := hgrant (n + 1) (by omega)
            exact hlater.made (by omega) hmade) hresult
          have hsame : (fun v => if (va_ + 0x1000).toNat / 4096 ≤ v
            ∧ v < (va_ + 0x1000).toNat / 4096 + count then attr
                else if v = va_.toNat / 4096 then attr else asked v)
              = fun v => if va_.toNat / 4096 ≤ v
                ∧ v < va_.toNat / 4096 + (count + 1) then attr else asked v := by
            funext v
            rw [hsucc]
            grind
          rw [← hsame]
          exact hrest

theorem isCached_permission (hattr : attr ∈ [pgPremR, pgPremRw, pgPremUr, pgPremUrw])
    : isCached attr = true := by
  simp only [List.mem_cons, List.not_mem_nil, or_false] at hattr
  rcases hattr with rfl | rfl | rfl | rfl
  . decide
  . decide
  . decide
  . decide

theorem ask_one (asked : Nat → Word) (attr : Word) (vpn : Nat)
    : (fun v => if vpn ≤ v ∧ v < vpn + 1 then attr else asked v) = fun v => if v = vpn then attr else asked v := by
  funext v
  have hiff : vpn ≤ v ∧ v < vpn + 1 ↔ v = vpn := by omega
  rw [if_congr hiff rfl rfl]

/--
Every call keeps the rights that it can grant.
-/
theorem RightsInv.call (h : RightsInv s asked) {c : MapCall}
    (hattr : c.attr ∈ [pgPremR, pgPremRw, pgPremUr, pgPremUrw])
    (hbelow : c.Below) (hgrant : c.Grantable s) {first count : Nat} (hsucceeds : c.Succeeds s s' first count)
    : RightsInv s' (fun v => if first ≤ v ∧ v < first + count then c.attr else asked v) := by
  have hcached := isCached_permission hattr
  have hpage : ∀ va : Word, va.toNat < 0xFFC00000 → va.toNat / 4096 < vpnEnd := by
    intro va hlt
    unfold vpnEnd
    omega
  cases hsucceeds with
  | setMapping hresult hfree hmapped =>
    have hva := hpage _ hbelow
    obtain ⟨made, hcases⟩ := vmmSetMapping_mapInternal h.tabled hva hcached hresult
    rw [ask_one]
    cases made with
    | true => exact h.mapInternal hva hcached hgrant hcases (nomatch ·)
    | false =>
      have hne := hmapped
      unfold Mapped at hne
      have hentry := hcases.refused.1.entry_eq
      exact absurd (hentry _)
        (fun hsame => hfree (by unfold entry at hsame; unfold Mapped; rw [← hsame]; exact hne))
  | mapPage hresult hne =>
    obtain ⟨vpn, hends, hvpn⟩ := hgrant
    obtain ⟨hlt, hr, hcases⟩ := vmmMapPage_mapInternal h.tabled (hpage _ hbelow) hcached hends hresult hne
    rw [ask_one, hr]
    exact h.mapInternal hlt hcached hvpn hcases (nomatch ·)
  | @fmapPage va _ _ _ _ hresult hne =>
    have hva := hpage va hbelow
    obtain ⟨hr, hcases⟩ := vmmFmapPage_mapInternal h.tabled hva hcached hresult hne
    have hself := page_vAddr hva va
    rw [(index_div va).1, (index_div va).2, ← hr] at hself
    rw [ask_one, hself]
    exact h.mapInternal hva hcached hgrant.1 hcases (fun _ => hgrant.2)
  | @allocPages va sz tattr _ hresult =>
    have hend : va.toNat / 4096 + sz.toNat / 4096 ≤ vpnEnd := by
      have hsum : va.toNat + sz.toNat ≤ 0xFFC00000 := hbelow
      unfold vpnEnd
      omega
    have hcount : (sz >>> 12).toNat = sz.toNat / 4096 := by
      rw [BitVec.toNat_ushiftRight, Nat.shiftRight_eq_div_pow]
    unfold vmmAllocPages at hresult
    rw [hcount] at hresult
    exact h.allocPages hcached hend hgrant hresult

end Calls

theorem Machine.EmptyDirectory.rightsInv {s : Machine} (h : s.EmptyDirectory) (asked : Nat → Word)
    : RightsInv s asked where
  tabled := h.toTabled
  granted := by
    intro v hv hmapped
    have hzero := h.empty (v / 1024) (by unfold vpnEnd at hv; omega)
    exact absurd hzero (dir_ne_zero_of_mapped hmapped)

/--
In every run from an empty directory whose calls can all be granted, a mapping has exactly the rights asked for.
-/
theorem mapping_grantsAsked {s₀ s : Machine} {asked : Nat → Word} (hempty : s₀.EmptyDirectory)
    (hrun : RightsRun (fun s c => c.Grantable s) s₀ s asked)
    : GrantsAsked s asked := by
  have hinv : RightsInv s asked := by
    induction hrun with
    | init => exact hempty.rightsInv _
    | call hrun c hattr hbelow hgrant hsucceeds ih => exact ih.call hattr hbelow hgrant hsucceeds
  intro va hva hmapped
  exact hinv.granted _ (by unfold vpnEnd; omega) hmapped

section OneFrame

/--
A call of `vmm_set_mapping` that can map its page.
-/
theorem vmmSetMapping_made {s : Machine} (h : s.Tabled) {va : Word} (hva : va.toNat / 4096 < vpnEnd) (pa : Word)
    {attr : Word} (hattr : isCached attr = true) (hempty : s.entry (va.toNat / 4096) = 0)
    (hfound : s.dir (va.toNat / 4096 / 1024) = 0 → (pmmAllocPage s.pmm).1 ≠ 0)
    : ∃ s', vmmSetMapping va pa attr s = .ok () s' ∧ s'.Tabled ∧ MadeEntry s (va.toNat / 4096) pa attr s' := by
  have hslot : ¬l1Index va = 1023 := Nat.ne_of_lt (page_lt_vpnEnd_iff.mp hva)
  obtain ⟨made, s', hmap, hcases⟩ := vmmMapInternal_returns h hva pa attr hattr false
  unfold vmmSetMapping
  rw [if_neg hslot, bind_ok _ hmap]
  cases made with
  | true => exact ⟨s', rfl, hcases.tabled h hva hattr (nomatch ·), hcases.madeEntry h hva hattr⟩
  | false =>
    cases hcases.refused.2 with
    | inl hne => exact absurd hempty hne
    | inr hshort => exact absurd hshort.2 (hfound hshort.1)

theorem mapped_of_made {s s' : Machine} {vpn : Nat} {pa attr : Word} (hattr : isCached attr = true)
    (hmade : MadeEntry s vpn pa attr s')
    : s'.Mapped vpn := by
  have hne : s'.entry vpn ≠ 0 := by
    rw [hmade.entry_self]
    exact newL2Entry_ne_zero hattr
  exact hne

theorem emptyDirectory_oneFrameLeft : oneFrameLeft.EmptyDirectory where
  toTabled := (wellFormed_of_directory rfl rfl (by decide) : oneFrameLeft.WellFormed).tabled
  empty := by
    intro i hi
    rw [@dir_congr directoryOnly oneFrameLeft rfl rfl, dir_directoryOnly, if_neg (by omega)]

/--
Two mappings in the same four megabytes of an empty directory. The first one makes the page table.
-/
theorem oneFrameLeft_run {Q : Machine → MapCall → Prop} {attr attr' : Word}
    (hattr : attr ∈ [pgPremR, pgPremRw, pgPremUr, pgPremUrw])
    (hattr' : attr' ∈ [pgPremR, pgPremRw, pgPremUr, pgPremUrw])
    (hfirst : Q oneFrameLeft (.setMapping 0x400000 0x5000 attr))
    (hsecond : ∀ s : Machine, s.dir 1 = oneFrameLeft.newTable attr → Q s (.setMapping 0x401000 0x6000 attr'))
    : ∃ s asked, RightsRun Q oneFrameLeft s asked
        ∧ asked 0x400 = attr ∧ asked 0x401 = attr'
        ∧ s.Mapped 0x400 ∧ s.Mapped 0x401
        ∧ s.effectiveRights 0x401 = rights attr &&& rights attr' := by
  have hcached := isCached_permission hattr
  have hcached' := isCached_permission hattr'
  have hdir : oneFrameLeft.dir 1 = 0 := emptyDirectory_oneFrameLeft.empty 1 (by decide)
  have hempty₁ : oneFrameLeft.entry 0x400 = 0 := entry_of_absent hdir
  obtain ⟨s₁, hresult₁, htabled, hmade₁⟩ := vmmSetMapping_made emptyDirectory_oneFrameLeft.toTabled
    (show (0x400000 : Word).toNat / 4096 < vpnEnd by decide) 0x5000 hcached hempty₁
    (fun _ => supplies_oneFrameLeft.1)
  have hself : s₁.dir 1 = oneFrameLeft.newTable attr := hmade₁.dir_self hdir
  have hne : s₁.dir 1 ≠ 0 := by
    rw [hself]
    exact newTable_ne_zero hcached
  have hempty₂ : s₁.entry 0x401 = 0 := by
    rw [hmade₁.entry_other 0x401 (by decide) (by decide)]
    exact entry_of_absent hdir
  obtain ⟨s₂, hresult₂, _, hmade₂⟩ := vmmSetMapping_made htabled
    (show (0x401000 : Word).toNat / 4096 < vpnEnd by decide) 0x6000 hcached' hempty₂ (fun hzero => absurd hzero hne)
  have hmapped₁ := mapped_of_made hcached hmade₁
  have hmapped₂ := mapped_of_made hcached' hmade₂
  have hinit : RightsRun Q oneFrameLeft oneFrameLeft (fun _ => 0) := .init
  have hrun₁ := hinit.call (.setMapping 0x400000 0x5000 attr) hattr
    (show (0x400000 : Word).toNat < 0xFFC00000 by decide) hfirst
    (.setMapping hresult₁ (not_not.mpr hempty₁) hmapped₁)
  have hrun₂ := hrun₁.call (.setMapping 0x401000 0x6000 attr') hattr'
    (show (0x401000 : Word).toNat < 0xFFC00000 by decide) (hsecond s₁ hself)
    (.setMapping hresult₂ (not_not.mpr hempty₂) hmapped₂)
  refine ⟨s₂, _, hrun₂, rfl, rfl, ?_, hmapped₂, ?_⟩
  . have hkept : s₂.entry 0x400 = s₁.entry 0x400 := hmade₂.entry_other 0x400 (by decide) (by decide)
    change s₂.entry 0x400 ≠ 0
    rw [hkept]
    exact hmapped₁
  . have hdir₂ : s₂.dir 1 = s₁.dir 1 := hmade₂.dir_kept 1 (by decide) hne
    have hentry : s₂.entry 0x401 = newL2Entry attr' 0x6000 := hmade₂.entry_self
    unfold effectiveRights
    rw [show (0x401 : Nat) / 1024 = 1 from rfl, hdir₂, hself, hentry, rights_and, rights_newL2Entry]
    unfold newTable
    rw [rights_newL1Entry]

/--
A page for the user to write, and then one in the same four megabytes that only the kernel reads.
-/
theorem mapping_grantsAsked_twoPages
    : ∃ s asked, RightsRun (fun s c => c.Grantable s) oneFrameLeft s asked
        ∧ s.effectiveRights 0x400 = rights pgPremUrw
        ∧ s.effectiveRights 0x401 = rights pgPremR := by
  have hdir : oneFrameLeft.dir 1 = 0 := emptyDirectory_oneFrameLeft.empty 1 (by decide)
  have hwide : ∀ s : Machine, s.dir 1 = oneFrameLeft.newTable pgPremUrw → s.CanGrant pgPremR 0x401 := by
    intro s hself
    right
    rw [show (0x401 : Nat) / 1024 = 1 from rfl, hself, rights_and]
    unfold newTable
    rw [rights_newL1Entry]
    decide
  obtain ⟨s, asked, hrun, hfirst, hsecond, hmapped₁, hmapped₂, _⟩ :=
    @oneFrameLeft_run (fun s c => c.Grantable s) pgPremUrw pgPremR (by simp) (by simp) (Or.inl hdir) hwide
  have hgranted := mapping_grantsAsked emptyDirectory_oneFrameLeft hrun
  have hrights₁ : s.effectiveRights 0x400 = rights (asked 0x400) := hgranted 0x400000 (by decide) hmapped₁
  have hrights₂ : s.effectiveRights 0x401 = rights (asked 0x401) := hgranted 0x401000 (by decide) hmapped₂
  rw [hfirst] at hrights₁
  rw [hsecond] at hrights₂
  exact ⟨s, asked, hrun, hrights₁, hrights₂⟩

/--
A page that was mapped for reading and writing cannot be written to, because the page before it was mapped first,
for reading.
-/
theorem setMapping_loses_write
    : oneFrameLeft.EmptyDirectory
        ∧ ∃ s asked, RightsRun (fun _ _ => True) oneFrameLeft s asked
          ∧ asked 0x401 = pgPremRw
          ∧ s.effectiveRights 0x401 = 0
          ∧ ¬GrantsAsked s asked := by
  obtain ⟨s, asked, hrun, _, hsecond, _, hmapped, hrights⟩ :=
    @oneFrameLeft_run (fun _ _ => True) pgPremR pgPremRw (by simp) (by simp) trivial (fun _ _ => trivial)
  rw [show rights pgPremR &&& rights pgPremRw = 0 by decide] at hrights
  refine ⟨emptyDirectory_oneFrameLeft, s, asked, hrun, hsecond, hrights, ?_⟩
  intro hall
  have hasked : s.effectiveRights 0x401 = rights (asked 0x401) := hall 0x401000 (by decide) hmapped
  rw [hrights, hsecond] at hasked
  exact absurd hasked (by decide)

end OneFrame

end AwaOS
