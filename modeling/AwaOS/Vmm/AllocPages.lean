import AwaOS.Pmm.Supply
import AwaOS.Vmm.Refinement

/-!
`vmm_alloc_pages` maps all pages of a range or none, and `vmm_alloc_page` maps the first page that is
not mapped.
-/

namespace AwaOS

namespace Machine

/--
Virtual page `vpn` is mapped.
-/
def Mapped (s : Machine) (vpn : Nat) : Prop :=
  s.pte (vpn / 1024) (vpn % 1024) ≠ 0

/--
The number of pages below the window onto the page tables.
-/
def vpnEnd : Nat := 1023 * 1024

variable {s s' : Machine}

theorem page_lt_vpnEnd_iff {va : Word} : va.toNat / 4096 < vpnEnd ↔ l1Index va < 1023 := by
  rw [l1Index_eq]
  unfold vpnEnd
  omega

theorem next_page {va : Word} (hva : va.toNat / 4096 < vpnEnd)
    : (va + 0x1000).toNat / 4096 = va.toNat / 4096 + 1 := by
  unfold vpnEnd at hva
  rw [BitVec.toNat_add]
  change (va.toNat + 4096) % 2 ^ 32 / 4096 = _
  omega

theorem dir_ne_zero_of_mapped {v : Nat} (h : s.Mapped v) : s.dir (v / 1024) ≠ 0 := by
  intro hzero
  unfold Mapped pte at h
  rw [if_pos hzero] at h
  exact h rfl

theorem not_mapped_of_directory (hmem : s.mem = directoryOnly.mem) (hcr3 : s.cr3 = directoryOnly.cr3) {v : Nat}
    (hv : v < vpnEnd)
    : ¬s.Mapped v := by
  intro hmapped
  have hne := dir_ne_zero_of_mapped hmapped
  unfold vpnEnd at hv
  rw [dir_of_directory hmem hcr3, if_neg (by omega)] at hne
  exact hne rfl

theorem mapped_of_index {va : Word} : s.Mapped (va.toNat / 4096) ↔ s.pte (l1Index va) (l2Index va) ≠ 0 := by
  unfold Mapped
  rw [l1Index_eq, l2Index_eq, Nat.div_div_eq_div_mul]

theorem eq_of_index {va : Word} {v : Nat}
    : v / 1024 = l1Index va ∧ v % 1024 = l2Index va ↔ v = va.toNat / 4096 := by
  rw [l1Index_eq, l2Index_eq]
  omega

theorem newL2Entry_ne_zero {attr pa : Word} (hpresent : isCached attr = true) : newL2Entry attr pa ≠ 0 := by
  apply ne_zero_of_isCached
  rw [isCached_newL2Entry, hpresent]

end Machine

open Machine

/--
From `s` to `s'`, all of the `count` pages from `vpn` on were mapped, or none of them.
-/
structure MapRange (s : Machine) (vpn count : Nat) (made : Bool) (s' : Machine) : Prop where
  wellFormed : s'.WellFormed
  mapped_iff : ∀ v, v < vpnEnd → (s'.Mapped v ↔ s.Mapped v ∨ (made = true ∧ vpn ≤ v ∧ v < vpn + count))
  fresh : made = true → ∀ v, vpn ≤ v → v < vpn + count → ¬s.Mapped v
  refused : made = false → s'.nullReturned = true ∨ ∃ v, vpn ≤ v ∧ v < vpn + count ∧ s.Mapped v

/--
What a filled entry means for the pages that are mapped.
-/
theorem Filled.mapRange {s s' : Machine} {va attr pa : Word} {ready made : Bool}
    (h : Filled s (l1Index va) (l2Index va) (newL2Entry attr pa) ready made s')
    (hpresent : isCached attr = true) (hnull : ready = false → s'.nullReturned = true)
    : MapRange s (va.toNat / 4096) 1 made s' where
  wellFormed := h.wellFormed
  mapped_iff := by
    intro v hv
    unfold vpnEnd at hv
    have hrange : va.toNat / 4096 ≤ v ∧ v < va.toNat / 4096 + 1 ↔ v / 1024 = l1Index va
      ∧ v % 1024 = l2Index va := by
      rw [eq_of_index]
      omega
    rw [hrange, h.made_iff]
    unfold Mapped
    rw [h.pte_eq _ _ (by omega) (by omega)]
    by_cases hset : (v / 1024 = l1Index va ∧ v % 1024 = l2Index va) ∧ s.pte (l1Index va) (l2Index va) = 0
      ∧ ready = true
    . rw [if_pos hset]
      exact ⟨fun _ => Or.inr ⟨hset.2, hset.1⟩, fun _ => newL2Entry_ne_zero hpresent⟩
    . rw [if_neg hset]
      exact ⟨Or.inl, fun hor => hor.elim id (fun hand => absurd ⟨hand.2, hand.1⟩ hset)⟩
  fresh := by
    intro hmade v hge hlt hmapped
    have hv : v = va.toNat / 4096 := by omega
    rw [hv, mapped_of_index] at hmapped
    exact hmapped (h.made_iff.mp hmade).1
  refused := by
    intro hmade
    cases hready : ready with
    | false => exact Or.inl (hnull hready)
    | true =>
      right
      refine ⟨va.toNat / 4096, Nat.le_refl _, by omega, ?_⟩
      rw [mapped_of_index]
      intro hempty
      have := h.made_iff.mpr ⟨hempty, hready⟩
      rw [hmade] at this
      contradiction

section AllocPages

variable {s : Machine}

theorem allocated_mappable (h : s.Owned) (hfound : (pmmAllocPage s.pmm).1 ≠ 0) (attr : Word)
    (hpresent : isCached attr = true) (hattr : attr.toNat ≤ 128)
    : s.allocated.Mappable (pmmAllocPage s.pmm).1 attr where
  present := by rw [hasFlags_pgPresent, hpresent]
  attr_le := hattr
  occupied := s.occupied_allocated_self hfound
  unreferenced := h.unreferenced_page hfound

theorem MapRange.of_allocated {vpn count : Nat} {made : Bool} {s' : Machine}
    (h : MapRange s.allocated vpn count made s')
    : MapRange s vpn count made s' where
  wellFormed := h.wellFormed
  mapped_iff := h.mapped_iff
  fresh := h.fresh
  refused := h.refused

theorem mapRange_refl (h : s.WellFormed) (vpn : Nat) : MapRange s vpn 0 true s where
  wellFormed := h
  mapped_iff := by
    intro v _
    refine ⟨Or.inl, fun hor => hor.elim id ?_⟩
    omega
  fresh := by
    intro _ v
    omega
  refused := (nomatch ·)

/--
From `s` to `s'`, `pmm_alloc_page` is called at most `n` times, and nothing is freed unless this failed.
-/
structure Draws (s : Machine) (n : Nat) (made : Bool) (s' : Machine) : Prop where
  nullReturned_eq : s.pmm.Supplies n → s'.nullReturned = s.nullReturned
  supplies : made = true → ∀ k, s.pmm.Supplies (n + k) → s'.pmm.Supplies k

theorem Draws.trans {s₀ s₁ : Machine} {n k : Nat} {made : Bool} (h : Draws s₀ n true s) (h' : Draws s k made s₁)
    : Draws s₀ (n + k) made s₁ where
  nullReturned_eq hsupply := by
    rw [h'.nullReturned_eq (h.supplies rfl k hsupply), h.nullReturned_eq (hsupply.mono (by omega))]
  supplies hmade l hsupply := by
    rw [Nat.add_assoc] at hsupply
    exact h'.supplies hmade l (h.supplies rfl _ hsupply)

theorem Draws.mono {s' : Machine} {n k : Nat} {made : Bool} (h : Draws s n made s') (hle : n ≤ k)
    : Draws s k made s' where
  nullReturned_eq hsupply := h.nullReturned_eq (hsupply.mono hle)
  supplies hmade l hsupply := h.supplies hmade l (hsupply.mono (by omega))

theorem draws_allocated (s : Machine) : Draws s 1 true s.allocated where
  nullReturned_eq hsupply := by
    unfold allocated
    rw [decide_eq_false hsupply.1, Bool.or_false]
  supplies _ k hsupply := by
    rw [Nat.add_comm] at hsupply
    exact hsupply.2

/--
The page table for page `vpn` has an entry in use.
-/
def TableUsed (s : Machine) (vpn : Nat) : Prop :=
  ∃ v, v < vpnEnd ∧ v / 1024 = vpn / 1024 ∧ s.Mapped v

theorem TableUsed.mono {s' : Machine} {vpn v count : Nat} {made : Bool} (h : TableUsed s v)
    (hrange : MapRange s vpn count made s')
    : TableUsed s' v := by
  obtain ⟨w, hw, htable, hmapped⟩ := h
  exact ⟨w, hw, htable, (hrange.mapped_iff w hw).mpr (Or.inl hmapped)⟩

theorem vmmMapInternal_mapRange (h : s.WellFormed) (va pa attr : Word) (hslot : l1Index va < 1023)
    (hmappable : s.Mappable pa attr)
    : ∃ made s', vmmMapInternal (l1Index va) (l2Index va) pa attr false s = .ok made s'
        ∧ MapRange s (va.toNat / 4096) 1 made s'
        ∧ Draws s (if s.dir (l1Index va) = 0 then 1 else 0) made s' := by
  obtain ⟨made, s', hresult, hfilled, hpmm, hflag⟩ :=
    vmmMapInternal_refines h (l1Index va) (l2Index va) hslot (l2Index_lt va) pa attr hmappable
  refine ⟨made, s', hresult, hfilled.mapRange ?_ ?_, ?_, ?_⟩
  . rw [← hasFlags_pgPresent, hmappable.present]
  . intro hready
    rw [hflag, hready, Bool.not_false, Bool.or_true]
  . intro hsupply
    have hready : s.ready (l1Index va) = true := by
      unfold ready
      by_cases hzero : s.dir (l1Index va) = 0
      . rw [if_pos hzero] at hsupply
        rw [decide_eq_true hsupply.1, Bool.or_true]
      . rw [decide_eq_true hzero, Bool.true_or]
    rw [hflag, hready, Bool.not_true, Bool.or_false]
  . intro _ k hsupply
    rw [hpmm]
    by_cases hzero : s.dir (l1Index va) = 0
    . rw [if_pos hzero] at hsupply ⊢
      exact (draws_allocated s).supplies rfl k hsupply
    . rw [if_neg hzero] at hsupply ⊢
      rwa [Nat.zero_add] at hsupply

theorem mapNext_mapRange (h : s.WellFormed) (va attr : Word) (hslot : l1Index va < 1023)
    (hpresent : isCached attr = true) (hattr : attr.toNat ≤ 128)
    : ∃ made s', vmmAllocPages.mapNext va attr s = .ok made s'
        ∧ MapRange s (va.toNat / 4096) 1 made s'
        ∧ (TableUsed s (va.toNat / 4096) → Draws s 1 made s') := by
  unfold vmmAllocPages.mapNext
  rw [bind_ok _ (callPmmAllocPage_eq s)]
  by_cases hnull : (pmmAllocPage s.pmm).1 = 0
  . rw [if_pos hnull]
    refine ⟨false, s.allocated, rfl, MapRange.of_allocated ⟨h.allocated, ?_, (nomatch ·), ?_⟩, ?_⟩
    . intro v _
      simp
    . intro _
      left
      unfold allocated
      simp [hnull]
    . intro _
      exact { nullReturned_eq := (draws_allocated s).nullReturned_eq, supplies := (nomatch ·) }
  . rw [if_neg hnull]
    obtain ⟨made, s', hresult, hrange, hdraws⟩ := vmmMapInternal_mapRange h.allocated va _ attr hslot
      (allocated_mappable h.toOwned hnull attr hpresent hattr)
    refine ⟨made, s', hresult, hrange.of_allocated, ?_⟩
    rintro ⟨v, _, htable, hmapped⟩
    have hne := dir_ne_zero_of_mapped hmapped
    rw [htable, Nat.div_div_eq_div_mul, ← l1Index_eq] at hne
    rw [dir_allocated, if_neg hne] at hdraws
    exact (draws_allocated s).trans hdraws

theorem vmmUnmapPages_mapped (h : s.WellFormed) (va : Word) (n : Nat) (hend : va.toNat / 4096 + n ≤ vpnEnd)
    : ∃ s', vmmUnmapPages va n s = .ok () s'
        ∧ s'.WellFormed
        ∧ s'.nullReturned = s.nullReturned
        ∧ ∀ v, v < vpnEnd → (s'.Mapped v ↔ s.Mapped v ∧ ¬(va.toNat / 4096 ≤ v ∧ v < va.toNat / 4096 + n)) := by
  induction n generalizing s va with
  | zero =>
    refine ⟨s, rfl, h, rfl, ?_⟩
    intro v _
    exact ⟨fun hmapped => ⟨hmapped, by omega⟩, And.left⟩
  | succ n ih =>
    have hbelow : va.toNat / 4096 < vpnEnd := by omega
    have hnext := next_page hbelow
    have hslot := page_lt_vpnEnd_iff.mp hbelow
    obtain ⟨s₁, hfirst, hwf, hflag, hpte⟩ := vmmUnmapPage_pte h va hslot
    obtain ⟨s', hrest, hwf', hflag', hmapped⟩ := ih hwf (va + 0x1000) (by omega)
    unfold vmmUnmapPages
    rw [bind_ok _ hfirst]
    refine ⟨s', hrest, hwf', hflag'.trans hflag, ?_⟩
    intro v hv
    have hone : s₁.Mapped v ↔ s.Mapped v ∧ v ≠ va.toNat / 4096 := by
      unfold Mapped
      unfold vpnEnd at hv
      rw [hpte _ _ (by omega)]
      split
      . next heq => simp [eq_of_index.mp heq]
      . next hne =>
        rw [eq_of_index] at hne
        simp [hne]
    rw [hmapped v hv, hone, hnext]
    constructor
    . rintro ⟨⟨hold, hne⟩, hout⟩
      exact ⟨hold, by omega⟩
    . rintro ⟨hold, hout⟩
      exact ⟨⟨hold, by omega⟩, by omega⟩

theorem MapRange.succ {s₀ s₁ : Machine} {vpn n : Nat} (h : MapRange s₀ vpn n true s)
    (hnext : MapRange s (vpn + n) 1 true s₁) (hend : vpn + n < vpnEnd)
    : MapRange s₀ vpn (n + 1) true s₁ where
  wellFormed := hnext.wellFormed
  mapped_iff := by
    intro v hv
    rw [hnext.mapped_iff v hv, h.mapped_iff v hv]
    constructor
    . rintro ((hold | hrange) | hlast)
      . exact Or.inl hold
      . exact Or.inr ⟨rfl, by omega, by omega⟩
      . exact Or.inr ⟨rfl, by omega, by omega⟩
    . rintro (hold | hrange)
      . exact Or.inl (Or.inl hold)
      . by_cases hv' : v < vpn + n
        . exact Or.inl (Or.inr ⟨rfl, hrange.2.1, hv'⟩)
        . exact Or.inr ⟨rfl, by omega, by omega⟩
  fresh := by
    intro _ v hge hlt hmapped
    by_cases hv : v < vpn + n
    . exact h.fresh rfl v hge hv hmapped
    . have hlast : v = vpn + n := by omega
      subst hlast
      exact hnext.fresh rfl _ (Nat.le_refl _) (by omega) ((h.mapped_iff _ hend).mpr (Or.inl hmapped))
  refused := (nomatch ·)

/--
The pages that were mapped before a page failed are unmapped again.
-/
theorem MapRange.rolledBack {s₀ s₁ s₂ : Machine} {vpn n count : Nat} (h : MapRange s₀ vpn n true s)
    (hnext : MapRange s (vpn + n) 1 false s₁) (hwf : s₂.WellFormed) (hflag : s₂.nullReturned = s₁.nullReturned)
    (hunmapped : ∀ v, v < vpnEnd → (s₂.Mapped v ↔ s₁.Mapped v ∧ ¬(vpn ≤ v ∧ v < vpn + n)))
    (hend : vpn + n < vpnEnd) (hcount : n < count)
    : MapRange s₀ vpn count false s₂ where
  wellFormed := hwf
  mapped_iff := by
    intro v hv
    have hfresh := h.fresh rfl v
    rw [hunmapped v hv, hnext.mapped_iff v hv, h.mapped_iff v hv]
    constructor
    . rintro ⟨(hold | hrange) | hfalse, hout⟩
      . exact Or.inl hold
      . exact absurd hrange.2 hout
      . exact absurd hfalse.1 (by decide)
    . rintro (hold | hfalse)
      . exact ⟨Or.inl (Or.inl hold), fun hrange => hfresh hrange.1 hrange.2 hold⟩
      . exact absurd hfalse.1 (by decide)
  fresh := (nomatch ·)
  refused := by
    intro _
    rw [hflag]
    cases hnext.refused rfl with
    | inl hnull => exact Or.inl hnull
    | inr htaken =>
      obtain ⟨v, hge, hlt, hmapped⟩ := htaken
      have hlast : v = vpn + n := by omega
      subst hlast
      rw [h.mapped_iff _ hend] at hmapped
      right
      refine ⟨vpn + n, by omega, by omega, hmapped.resolve_right (by omega)⟩

theorem go_mapRange {s₀ : Machine} {va va_ attr : Word} {i : Nat} (h : MapRange s₀ (va.toNat / 4096) i true s)
    (hva : va_.toNat / 4096 = va.toNat / 4096 + i) (count : Nat)
    (hend : va.toNat / 4096 + i + count ≤ vpnEnd) (hpresent : isCached attr = true) (hattr : attr.toNat ≤ 128)
    : ∃ made s', vmmAllocPages.go va attr i va_ count s = .ok made s'
        ∧ MapRange s₀ (va.toNat / 4096) (i + count) made s'
        ∧ ((∀ n, n < count → TableUsed s (va_.toNat / 4096 + n)) → Draws s count made s') := by
  induction count generalizing s i va_ with
  | zero =>
    refine ⟨true, s, rfl, h, fun _ => ⟨fun _ => rfl, fun _ k hsupply => ?_⟩⟩
    rwa [Nat.zero_add] at hsupply
  | succ count ih =>
    have hbelow : va_.toNat / 4096 < vpnEnd := by omega
    have hslot := page_lt_vpnEnd_iff.mp hbelow
    obtain ⟨made, s₁, hresult, hnext, hdraws⟩ := mapNext_mapRange h.wellFormed va_ attr hslot hpresent hattr
    unfold vmmAllocPages.go
    rw [bind_ok _ hresult]
    cases made with
    | true =>
      have hsucc := next_page hbelow
      have hnext' := hnext
      rw [hva] at hnext'
      have hrange := h.succ hnext' (by omega)
      have hva' : (va_ + 0x1000).toNat / 4096 = va.toNat / 4096 + (i + 1) := by omega
      have hsum : i + 1 + count = i + (count + 1) := by omega
      obtain ⟨made, s', hrest, hmap, hrestDraws⟩ := ih hrange hva' (by omega)
      rw [hsum] at hmap
      refine ⟨made, s', hrest, hmap, ?_⟩
      intro htables
      rw [Nat.add_comm count 1]
      refine (hdraws (htables 0 (by omega))).trans (hrestDraws ?_)
      intro n hn
      have htable := htables (n + 1) (by omega)
      rw [hsucc, Nat.add_assoc, Nat.add_comm 1 n]
      exact htable.mono hnext
    | false =>
      rw [hva] at hnext
      obtain ⟨s', hunmap, hwf, hflag, hunmapped⟩ := vmmUnmapPages_mapped hnext.wellFormed va i (by omega)
      refine ⟨false, s', ?_, h.rolledBack hnext hwf hflag hunmapped (by omega) (by omega), ?_⟩
      . simp only [Bool.not_false, ↓reduceIte]
        rw [bind_ok _ hunmap]
        rfl
      . intro htables
        have hfirst := hdraws (htables 0 (by omega))
        refine { nullReturned_eq := fun hsupply => ?_, supplies := Bool.noConfusion }
        rw [hflag, hfirst.nullReturned_eq (hsupply.mono (by omega))]

/--
`vmm_alloc_pages` maps the whole range, or it changes nothing in the mapping.
-/
theorem vmmAllocPages_mapRange (h : s.WellFormed) (va sz attr : Word)
    (hend : va.toNat / 4096 + sz.toNat / 4096 ≤ vpnEnd)
    (hpresent : isCached attr = true) (hattr : attr.toNat ≤ 128)
    : ∃ made s', vmmAllocPages va sz attr s = .ok made s'
        ∧ MapRange s (va.toNat / 4096) (sz.toNat / 4096) made s'
        ∧ ((∀ n, n < sz.toNat / 4096 → TableUsed s (va.toNat / 4096 + n)) → Draws s (sz.toNat / 4096) made s') := by
  have hcount : (sz >>> 12).toNat = sz.toNat / 4096 := by
    rw [BitVec.toNat_ushiftRight, Nat.shiftRight_eq_div_pow]
  have hgo := go_mapRange (mapRange_refl h (va.toNat / 4096)) rfl (sz.toNat / 4096) hend hpresent hattr
  unfold vmmAllocPages
  rw [hcount]
  rwa [Nat.zero_add] at hgo

theorem setTable_mapRange (h : s.WellFormed) (i j : Nat) (pa attr : Word) (hi : i < 1023) (hj : j < 1024)
    (hpresent : isCached (s.dir i) = true) (hempty : s.table i j = 0) (hmappable : s.Mappable pa attr)
    : MapRange s (i * 1024 + j) 1 true (s.setTable i j (newL2Entry attr pa)) where
  wellFormed := by
    apply h.setTable i j _ hi hj hpresent
    . rw [frameOf_newL2Entry]
      exact hmappable.occupied
    . rw [frameOf_newL2Entry]
      exact hmappable.unreferenced
  mapped_iff := by
    intro v hv
    have hattr : isCached attr = true := by rw [← hasFlags_pgPresent, hmappable.present]
    have hindex : v / 1024 = i ∧ v % 1024 = j ↔ v = i * 1024 + j := by omega
    unfold vpnEnd at hv
    unfold Mapped
    rw [h.recursive.pte_setTable i j _ hi (ne_zero_of_isCached hpresent) _ _ (by omega)]
    split
    . next heq => exact ⟨fun _ => Or.inr ⟨rfl, by omega, by omega⟩, fun _ => newL2Entry_ne_zero hattr⟩
    . next hne => exact ⟨Or.inl, fun hor => hor.elim id (fun hrange => absurd (hindex.mpr (by omega)) hne)⟩
  fresh := by
    intro _ v hge hlt hmapped
    have hdiv : v / 1024 = i := by omega
    have hmod : v % 1024 = j := by omega
    unfold Mapped pte at hmapped
    rw [hdiv, hmod, if_neg (ne_zero_of_isCached hpresent)] at hmapped
    exact hmapped hempty
  refused := (nomatch ·)

/--
`vmm_map_page` maps the first page that is not mapped. Here this is one of the first two.
-/
theorem vmmMapPage_mapRange (h : s.WellFormed) {va pa attr page : Word} (hmappable : s.Mappable pa attr)
    (hend : va.toNat / 4096 + 1 < vpnEnd) (hnext : ¬s.Mapped (va.toNat / 4096 + 1)) {s' : Machine}
    (hresult : vmmMapPage va pa attr s = .ok page s') (hne : page ≠ 0)
    : ∃ v, (v = va.toNat / 4096 ∨ v = va.toNat / 4096 + 1) ∧ MapRange s v 1 true s' := by
  have hl1 := page_lt_vpnEnd_iff.mp (Nat.lt_of_succ_lt hend)
  unfold vmmMapPage at hresult
  by_cases hzero : pa = 0 ∨ va = 0
  . rw [if_pos hzero] at hresult
    injection hresult with hpage
    exact absurd hpage.symm hne
  . rw [if_neg hzero, bind_ok _ (h.load_l1 _ (l1Index_lt va))] at hresult
    by_cases habsent : s.dir (l1Index va) = 0
    . have hended := vmmMapPage.search_ended s pa attr (l1Index va) (l2Index va) (l2Index_le va)
      have hsmall : ¬l1Index va > pgMaxEntries := by
        unfold pgMaxEntries
        omega
      obtain ⟨made, s₁, hmap, hrange, _⟩ := vmmMapInternal_mapRange h va pa attr hl1 hmappable
      rw [habsent, bind_ok _ hended] at hresult
      dsimp only at hresult
      rw [if_neg hsmall, bind_ok _ hmap] at hresult
      cases made with
      | true =>
        injection hresult with _ hs'
        subst hs'
        exact ⟨_, Or.inl rfl, hrange⟩
      | false =>
        injection hresult with hpage
        exact absurd hpage.symm hne
    . have hstop : ¬(isCached (s.dir ((va.toNat / 4096 + 1) / 1024)) = true
          ∧ s.table ((va.toNat / 4096 + 1) / 1024) ((va.toNat / 4096 + 1) % 1024) ≠ 0) := by
        rintro ⟨hcached, hfull⟩
        apply hnext
        unfold Mapped pte
        rw [if_neg (ne_zero_of_isCached hcached)]
        exact hfull
      have hpos : l1Index va * 1024 + l2Index va = va.toNat / 4096 := by
        rw [l1Index_eq, l2Index_eq]
        omega
      have hlast := Nat.div_add_mod' (va.toNat / 4096 + 1) 1024
      have hsearch := vmmMapPage.search_cases h.toSelfMapped pa attr _ _ (by unfold vpnEnd at hend; omega)
        (by omega) hstop
        (l1Index va) (l2Index va) (l2Index_le va) (by rw [hpos, hlast]; exact Nat.le_succ _) habsent
      rw [hpos, hlast] at hsearch
      generalize hfound : vmmMapPage.search pa attr (l1Index va) (l2Index va) (l2Index_le va)
        (s.dir (l1Index va)) s = r at hsearch
      cases hsearch with
      | fault e =>
        rw [bind_error _ hfound] at hresult
        injection hresult
      | mapped i j hi hj hfirst hlast hpresent hempty =>
        rw [bind_ok _ hfound] at hresult
        injection hresult with _ hs'
        subst hs'
        exact ⟨_, by omega, setTable_mapRange h i j pa attr hi hj hpresent hempty hmappable⟩

/--
`vmm_alloc_page` for a page after which the next one is not mapped.
-/
theorem vmmAllocPage_mapRange (h : s.WellFormed) {va attr page : Word} (hpresent : isCached attr = true)
    (hattr : attr.toNat ≤ 128) (hend : va.toNat / 4096 + 1 < vpnEnd) (hnext : ¬s.Mapped (va.toNat / 4096 + 1))
    {s' : Machine} (hresult : vmmAllocPage va attr s = .ok page s') (hne : page ≠ 0)
    : ∃ v, (v = va.toNat / 4096 ∨ v = va.toNat / 4096 + 1) ∧ MapRange s v 1 true s' := by
  unfold vmmAllocPage at hresult
  rw [bind_ok _ (callPmmAllocPage_eq s)] at hresult
  cases hmap : vmmMapPage va (pmmAllocPage s.pmm).1 attr s.allocated with
  | error e s₁ =>
    rw [bind_error _ hmap] at hresult
    injection hresult
  | ok result s₁ =>
    rw [bind_ok _ hmap] at hresult
    by_cases hzero : result = 0
    . rw [if_pos hzero, bind_ok _ (callPmmFreePage_eq _ _)] at hresult
      injection hresult with hpage
      rw [hzero] at hpage
      exact absurd hpage.symm hne
    . rw [if_neg hzero] at hresult
      injection hresult with _ hs'
      subst hs'
      have hfound : (pmmAllocPage s.pmm).1 ≠ 0 := by
        intro hnull
        unfold vmmMapPage at hmap
        rw [if_pos (Or.inl hnull)] at hmap
        injection hmap with hpage
        exact absurd hpage.symm hzero
      obtain ⟨v, hv, hrange⟩ := vmmMapPage_mapRange h.allocated
        (allocated_mappable h.toOwned hfound attr hpresent hattr) hend hnext hmap hzero
      exact ⟨v, hv, hrange.of_allocated⟩

/--
`vmm_alloc_page` with frames for the page and for its page table.
-/
theorem vmmAllocPage_supplied (h : s.WellFormed) {va attr : Word} (hpresent : isCached attr = true)
    (hattr : attr.toNat ≤ 128) (hva : va ≠ 0) (hslot : l1Index va < 1023) (habsent : s.dir (l1Index va) = 0)
    (hflag : s.nullReturned = false) {n : Nat} (hsupply : s.pmm.Supplies (2 + n))
    (hne : vAddr (l1Index va) (l2Index va) (pgOffset va) ≠ 0)
    : ∃ s', vmmAllocPage va attr s = .ok (vAddr (l1Index va) (l2Index va) (pgOffset va)) s'
        ∧ MapRange s (va.toNat / 4096) 1 true s'
        ∧ s'.nullReturned = false
        ∧ s'.pmm.Supplies n := by
  have hfound : (pmmAllocPage s.pmm).1 ≠ 0 := (hsupply.mono (show 1 ≤ 2 + n by omega)).1
  have hnull : ¬((pmmAllocPage s.pmm).1 = 0 ∨ va = 0) := not_or.mpr ⟨hfound, hva⟩
  have hsmall : ¬l1Index va > pgMaxEntries := by
    unfold pgMaxEntries
    omega
  have hended := vmmMapPage.search_ended s.allocated (pmmAllocPage s.pmm).1 attr (l1Index va) (l2Index va)
    (l2Index_le va)
  obtain ⟨made, s', hmap, hrange, hdraws⟩ := vmmMapInternal_mapRange h.allocated va _ attr hslot
    (allocated_mappable h.toOwned hfound attr hpresent hattr)
  rw [dir_allocated, if_pos habsent] at hdraws
  have hboth : Draws s 2 made s' := (draws_allocated s).trans hdraws
  have hflag' : s'.nullReturned = false := (hboth.nullReturned_eq (hsupply.mono (by omega))).trans hflag
  have hmade : made = true := by
    rw [← Bool.not_eq_false]
    intro hfalse
    cases hrange.refused hfalse with
    | inl hnull =>
      rw [hflag'] at hnull
      contradiction
    | inr htaken =>
      obtain ⟨v, hge, hlt, hmapped⟩ := htaken
      have hv : v / 1024 = l1Index va := by
        rw [l1Index_eq]
        omega
      have hne := dir_ne_zero_of_mapped hmapped
      rw [hv] at hne
      exact hne habsent
  subst hmade
  have hresult : vmmMapPage va (pmmAllocPage s.pmm).1 attr s.allocated
      = .ok (vAddr (l1Index va) (l2Index va) (pgOffset va)) s' := by
    unfold vmmMapPage
    rw [if_neg hnull, bind_ok _ (h.allocated.load_l1 _ (l1Index_lt va)), dir_allocated, habsent,
      bind_ok _ hended]
    dsimp only
    rw [if_neg hsmall, bind_ok _ hmap]
    rfl
  refine ⟨s', ?_, hrange.of_allocated, hflag', hboth.supplies rfl n hsupply⟩
  unfold vmmAllocPage
  rw [bind_ok _ (callPmmAllocPage_eq s), bind_ok _ hresult, if_neg hne]
  rfl

end AllocPages

end AwaOS
