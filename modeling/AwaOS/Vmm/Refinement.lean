import AwaOS.Vmm.Ownership

/-!
The page tables as a flat map from virtual pages to physical addresses and flags, as `vmm_lookup` sees
them, and the operations on mappings as operations on this map.
-/

namespace AwaOS

/--
A page below the window onto the page tables.
-/
structure VPage where
  va : Word
  aligned : pgOffset va = 0
  below : l1Index va < 1023
  deriving DecidableEq

/--
What the page tables are for: a partial map from pages to physical addresses with flags.
-/
abbrev AddrMap := VPage → Option (Word × BitVec 16)

namespace AddrMap

/--
A new mapping is only made for a page that has none. `ready` tells whether there is a place to put it.
-/
def setMapping (m : AddrMap) (page : VPage) (pa attr : Word) (ready : Bool) : AddrMap :=
  if m page = none ∧ ready then
    Function.update m page (some (pgAlign pa, attr.setWidth 16))
  else
    m

def unmapPage (m : AddrMap) (page : VPage) : AddrMap :=
  Function.update m page none

end AddrMap

theorem VPage.eq_of_index {p q : VPage} (hl1 : l1Index p.va = l1Index q.va) (hl2 : l2Index p.va = l2Index q.va)
    : p = q := by
  have hp := congrArg BitVec.toNat p.aligned
  have hq := congrArg BitVec.toNat q.aligned
  rw [toNat_pgOffset] at hp hq
  rw [l1Index_eq, l1Index_eq] at hl1
  rw [l2Index_eq, l2Index_eq] at hl2
  simp only [BitVec.ofNat_eq_ofNat, BitVec.toNat_ofNat, Nat.zero_mod] at hp hq
  have hva : p.va = q.va := by
    apply BitVec.eq_of_toNat_eq
    omega
  cases p
  cases q
  simpa using hva

namespace Machine

/--
The entry for page `j` of table `i`, zero if there is no such table.
-/
def pte (s : Machine) (i j : Nat) : Word :=
  if s.dir i = 0 then
    0
  else
    s.table i j

/--
Every entry of the directory is empty or refers to a page table.
-/
structure WellFormed (s : Machine) : Prop extends s.Owned where
  tables : ∀ i, i < 1023 → s.dir i = 0 ∨ isCached (s.dir i) = true

/--
The map that `vmm_lookup` shows.
-/
def addrMap (s : Machine) : AddrMap := fun page =>
  match vmmLookup page.va s with
  | .ok mapping _ =>
    if mapping.pa = 0 ∧ mapping.flags = 0 then
      none
    else
      some (mapping.pa, mapping.flags)
  | .error _ _ => none

end Machine

def VMapping.ofEntry (entry : Word) : VMapping :=
  if entry = 0 then
    { flags := 0, pa := 0, pn := 0 }
  else
    {
      flags := (pgEntryFlags entry).setWidth 16
      pa := pgEntryAddr entry
      pn := pgEntryAddr entry >>> 12
    }

open Machine

theorem lookup_eq {s : Machine} (h : s.SelfMapped)
    (htables : ∀ i, i < 1023 → s.dir i = 0 ∨ isCached (s.dir i) = true) (va : Word)
    : vmmLookup va s = .ok (VMapping.ofEntry (s.pte (l1Index va) (l2Index va))) s := by
  have hl1 := l1Index_lt va
  unfold vmmLookup pte VMapping.ofEntry
  rw [bind_ok _ (h.load_l1 _ hl1)]
  by_cases hzero : s.dir (l1Index va) = 0
  . rw [if_neg (not_not.mpr hzero), if_pos hzero, if_pos rfl]
    rfl
  . have hpresent : isCached (s.dir (l1Index va)) = true := by
      by_cases hlast : l1Index va = 1023
      . rw [hlast]
        exact h.present
      . exact (htables _ (by omega)).resolve_left hzero
    rw [if_pos hzero, if_neg hzero, bind_ok _ (h.load_l2 _ _ hl1 (l2Index_lt va) hpresent)]
    by_cases hempty : s.table (l1Index va) (l2Index va) = 0
    . rw [if_neg (not_not.mpr hempty), if_pos hempty]
      rfl
    . rw [if_pos hempty, if_neg hempty]
      rfl

/--
The map entry that a page table entry stands for.
-/
def decodeEntry (entry : Word) : Option (Word × BitVec 16) :=
  if entry = 0 then
    none
  else
    some (pgEntryAddr entry, (pgEntryFlags entry).setWidth 16)

theorem eq_zero_of_fields {entry : Word} (haddr : pgEntryAddr entry = 0)
    (hflags : (pgEntryFlags entry).setWidth 16 = 0)
    : entry = 0 := by
  apply BitVec.eq_of_getLsbD_eq
  intro i hi
  rw [BitVec.ofNat_eq_ofNat, BitVec.getLsbD_zero]
  by_cases h12 : i < 12
  . have hbit := congrArg (BitVec.getLsbD · i) hflags
    unfold pgEntryFlags at hbit
    simp only [BitVec.getLsbD_setWidth, BitVec.getLsbD_and, getLsbD_offsetMask i hi, h12, decide_true,
      Bool.and_true, BitVec.ofNat_eq_ofNat, BitVec.getLsbD_zero, Bool.and_eq_false_imp,
        decide_eq_true_eq] at hbit
    exact hbit (by omega)
  . have hbit := congrArg (BitVec.getLsbD · i) haddr
    have hle : 12 ≤ i := by omega
    unfold pgEntryAddr at hbit
    rw [show ~~~0xFFF#32 = 0xFFFFF000#32 from rfl] at hbit
    simpa only [BitVec.getLsbD_and, getLsbD_pgMask i hi, hle, decide_true, Bool.and_true,
      BitVec.ofNat_eq_ofNat, BitVec.getLsbD_zero] using hbit

theorem decodeEntry_eq_none {entry : Word} : decodeEntry entry = none ↔ entry = 0 := by
  unfold decodeEntry
  split
  . next hzero => simp [hzero]
  . next hne => exact ⟨(nomatch ·), fun h => absurd h hne⟩

theorem decodeEntry_newL2Entry (attr pa : Word) (hpresent : isCached attr = true) (hattr : attr.toNat ≤ 128)
    : decodeEntry (newL2Entry attr pa) = some (pgAlign pa, attr.setWidth 16) := by
  have hne : newL2Entry attr pa ≠ 0 := by
    apply ne_zero_of_isCached
    rw [isCached_newL2Entry, hpresent]
  have hflags : attr &&& 0xFFF#32 = attr := by
    apply BitVec.eq_of_toNat_eq
    rw [BitVec.toNat_and, show (0xFFF#32).toNat = 2 ^ 12 - 1 from rfl, Nat.and_two_pow_sub_one_eq_mod]
    omega
  unfold decodeEntry
  rw [if_neg hne, pgEntryAddr_newL2Entry, pgEntryFlags_newL2Entry, hflags]

theorem addrMap_eq {s : Machine} (h : s.WellFormed) (page : VPage)
    : s.addrMap page = decodeEntry (s.pte (l1Index page.va) (l2Index page.va)) := by
  unfold addrMap
  rw [lookup_eq h.toSelfMapped h.tables]
  dsimp only
  unfold VMapping.ofEntry decodeEntry
  split
  . rfl
  . next hne =>
    rw [if_neg]
    intro hand
    exact hne (eq_zero_of_fields hand.1 hand.2)

namespace Machine

variable {s : Machine}

theorem pte_congr {s' : Machine} (hmem : s'.mem = s.mem) (hcr3 : s'.cr3 = s.cr3) (k l : Nat)
    : s'.pte k l = s.pte k l := by
  unfold pte
  rw [dir_congr hmem hcr3, table_congr hmem hcr3]

theorem Recursive.pte_setTable (h : s.Recursive) (i j : Nat) (w : Word) (hi : i < 1023) (hne : s.dir i ≠ 0)
    (k l : Nat) (hk : k < 1023)
    : (s.setTable i j w).pte k l = if k = i ∧ l = j then w else s.pte k l := by
  unfold pte
  rw [h.dir_setTable i j w hi hne]
  by_cases hzero : s.dir k = 0
  . have hki : ¬(k = i ∧ l = j) := by
      rintro ⟨rfl, _⟩
      exact hne hzero
    rw [if_pos hzero, if_neg hki, if_pos hzero]
  . rw [if_neg hzero, if_neg hzero, h.table_setTable i j w hi hne k l (by omega) hzero]

/--
An empty page table maps as little as none.
-/
theorem Recursive.pte_installTable (h : s.Recursive) (i : Nat) (w : Word) (hfresh : s.Fresh (frameOf w))
    (hzero : s.dir i = 0) (k l : Nat) (hk : k < 1023) (hl : l < 1024)
    : (s.installTable i w).pte k l = s.pte k l := by
  unfold pte
  rw [h.dir_installTable i w hfresh]
  by_cases hki : k = i
  . rw [h.table_installTable i w hfresh k l hk (Or.inl hki) hl, if_pos hki, hki, if_pos hzero, if_pos rfl,
      ite_self]
  . rw [if_neg hki]
    by_cases hne : s.dir k = 0
    . rw [if_pos hne, if_pos hne]
    . rw [if_neg hne, if_neg hne, h.table_installTable i w hfresh k l hk (Or.inr hne) hl, if_neg hki]

theorem WellFormed.allocated (h : s.WellFormed) : s.allocated.WellFormed where
  toOwned := h.toOwned.allocated
  tables := h.tables

theorem WellFormed.setTable (h : s.WellFormed) (i j : Nat) (w : Word) (hi : i < 1023) (hj : j < 1024)
    (hpresent : isCached (s.dir i) = true) (hoccupied : s.pmm.occupied (frameOf w) = true)
    (hunref : Unreferenced s.refs (frameOf w))
    : (s.setTable i j w).WellFormed where
  toOwned := h.toOwned.setTable i j w hi hj hpresent hoccupied hunref
  tables := by
    intro k hk
    rw [h.recursive.dir_setTable i j w hi (ne_zero_of_isCached hpresent)]
    exact h.tables k hk

theorem WellFormed.installTable (h : s.WellFormed) (i : Nat) (attr : Word) (hi : i < 1023)
    (hfound : (pmmAllocPage s.pmm).1 ≠ 0) (hattr : isCached attr = true)
    : (s.allocated.installTable i (newL1Entry attr (pmmAllocPage s.pmm).1)).WellFormed where
  toOwned := h.toOwned.installTable i attr hi hfound
  tables := by
    intro k hk
    rw [h.allocated.toSelfMapped.dir_installTable i _ (h.tablesOccupied.fresh_newL1Entry hfound attr)]
    by_cases hki : k = i
    . right
      rw [if_pos hki, newL1Entry_eq, isCached_newL2Entry, hattr]
    . rw [if_neg hki]
      exact h.tables k hk

theorem WellFormed.clearTable (h : s.WellFormed) (i j : Nat) (hi : i < 1023) (hj : j < 1024)
    (hpresent : isCached (s.dir i) = true)
    : ((s.releasedEntry (s.table i j)).setTable i j 0).WellFormed where
  toOwned := h.toOwned.clearTable i j hi hj hpresent
  tables := by
    have hmem := s.releasedEntry_mem (s.table i j)
    have hcr3 := s.releasedEntry_cr3 (s.table i j)
    have hrec : (s.releasedEntry (s.table i j)).Recursive := h.recursive.congr hmem hcr3
    have hne : (s.releasedEntry (s.table i j)).dir i ≠ 0 := by
      rw [dir_congr hmem hcr3]
      exact ne_zero_of_isCached hpresent
    intro k hk
    rw [hrec.dir_setTable i j 0 hi hne, dir_congr hmem hcr3]
    exact h.tables k hk

/--
Page table `i` exists, or `pmm_alloc_page` gives a frame for it.
-/
def ready (s : Machine) (i : Nat) : Bool :=
  s.dir i ≠ 0 || (pmmAllocPage s.pmm).1 ≠ 0

/--
A frame that a new mapping may refer to.
-/
structure Mappable (s : Machine) (pa attr : Word) : Prop where
  present : hasFlags attr pgPresent = true
  attr_le : attr.toNat ≤ 128
  occupied : s.pmm.occupied (pa >>> 12).toNat = true
  unreferenced : Unreferenced s.refs (pa >>> 12).toNat

end Machine

/--
Entry `(i, j)` is filled if it was empty and there is a place to put it, and nothing else changes.
-/
structure Filled (s : Machine) (i j : Nat) (entry : Word) (ready made : Bool) (s' : Machine) : Prop where
  wellFormed : s'.WellFormed
  made_iff : made = true ↔ s.pte i j = 0 ∧ ready = true
  pte_eq : ∀ k l, k < 1023 → l < 1024 →
    s'.pte k l = if (k = i ∧ l = j) ∧ s.pte i j = 0 ∧ ready = true then entry else s.pte k l

theorem makeEntry_refines {s : Machine} (h : s.WellFormed) (i j : Nat) (hi : i < 1023) (hj : j < 1024)
    (hne : s.dir i ≠ 0) (pa attr : Word) (hoccupied : s.pmm.occupied (pa >>> 12).toNat = true)
    (hunref : Unreferenced s.refs (pa >>> 12).toNat)
    : ∃ made s', vmmMapInternal.makeEntry i j pa attr false s = .ok made s'
        ∧ Filled s i j (newL2Entry attr pa) true made s'
        ∧ s'.pmm = s.pmm
        ∧ s'.nullReturned = s.nullReturned := by
  have hpte : s.pte i j = s.table i j := by
    unfold pte
    rw [if_neg hne]
  have hcases := vmmMapInternal.makeEntry_cases h.toSelfMapped i j (by omega) hj pa attr false
  generalize vmmMapInternal.makeEntry i j pa attr false s = r at hcases ⊢
  cases hcases with
  | fault habsent =>
    rw [(h.tables i hi).resolve_left hne] at habsent
    contradiction
  | taken hpresent hfull hforced =>
    rw [← hpte] at hfull
    refine ⟨false, s, rfl, { wellFormed := h, made_iff := ?_, pte_eq := ?_ }, rfl, rfl⟩
    . exact ⟨(nomatch ·), fun hand => absurd hand.1 hfull⟩
    . intro k l _ _
      rw [if_neg (fun hand => hfull hand.2.1)]
  | made hpresent hempty =>
    rw [← hpte] at hempty
    refine ⟨true, _, rfl, { wellFormed := ?_, made_iff := ?_, pte_eq := ?_ }, rfl, rfl⟩
    . apply h.setTable i j _ hi hj hpresent
      . rw [frameOf_newL2Entry]
        exact hoccupied
      . rw [frameOf_newL2Entry]
        exact hunref
    . simp [hempty]
    . intro k l hk _
      rw [h.recursive.pte_setTable i j _ hi hne k l hk]
      simp only [hempty, and_true]
  | forced hpresent hfull hforced => contradiction

theorem vmmMapInternal_refines {s : Machine} (h : s.WellFormed) (i j : Nat) (hi : i < 1023) (hj : j < 1024)
    (pa attr : Word) (hmappable : s.Mappable pa attr)
    : ∃ made s', vmmMapInternal i j pa attr false s = .ok made s'
        ∧ Filled s i j (newL2Entry attr pa) (s.ready i) made s'
        ∧ s'.pmm = (if s.dir i = 0 then s.allocated.pmm else s.pmm)
        ∧ s'.nullReturned = (s.nullReturned || !s.ready i) := by
  have hpresent := hmappable.present
  rw [hasFlags_pgPresent] at hpresent
  have htable := vmmMapInternal.makeTable_cases h.toSelfMapped h.tablesOccupied i (by omega) attr
  rw [vmmMapInternal_eq]
  generalize vmmMapInternal.makeTable i attr s = r at htable ⊢
  cases htable with
  | kept hne =>
    have hready : s.ready i = true := by rw [ready, decide_eq_true hne, Bool.true_or]
    obtain ⟨made, s', hresult, hfilled, hpmm, hnull⟩ :=
      makeEntry_refines h i j hi hj hne pa attr hmappable.occupied hmappable.unreferenced
    rw [hready, if_neg hne, Bool.not_true, Bool.or_false]
    exact ⟨made, s', hresult, hfilled, hpmm, hnull⟩
  | null hzero hnull =>
    have hready : s.ready i = false := by simp [ready, hzero, hnull]
    rw [hready, if_pos hzero, Bool.not_false, Bool.or_true]
    refine ⟨false, s.allocated, rfl, { wellFormed := h.allocated, made_iff := ?_, pte_eq := ?_ }, rfl, ?_⟩
    . simp
    . intro k l _ _
      simp only [Bool.false_eq_true, and_false, ↓reduceIte]
      exact pte_congr rfl rfl k l
    . unfold allocated
      simp [hnull]
  | made hzero hfound hattr =>
    have hready : s.ready i = true := by rw [ready, decide_eq_true hfound, Bool.or_true]
    have hrec := h.allocated.recursive
    have hfresh : s.allocated.Fresh (frameOf (newL1Entry attr (pmmAllocPage s.pmm).1)) :=
      h.tablesOccupied.fresh_newL1Entry hfound attr
    have hdir := hrec.dir_installTable i _ hfresh i
    rw [if_pos rfl] at hdir
    have hne : newL1Entry attr (pmmAllocPage s.pmm).1 ≠ 0 := by
      apply ne_zero_of_isCached
      rw [newL1Entry_eq, isCached_newL2Entry, hattr]
    rw [← hdir] at hne
    have hpte : ∀ k l, k < 1023 → l < 1024 →
        (s.allocated.installTable i (newL1Entry attr (pmmAllocPage s.pmm).1)).pte k l = s.pte k l :=
      fun k l hk hl => hrec.pte_installTable i _ hfresh hzero k l hk hl
    obtain ⟨made, s', hresult, hfilled, hpmm, hnull⟩ :=
      makeEntry_refines (h.installTable i attr hi hfound hattr) i j
      hi hj hne pa attr (s.occupied_allocated _ hmappable.occupied)
      (h.unreferenced_installTable i attr hfound _ hmappable.occupied hmappable.unreferenced)
    rw [hready, if_pos hzero, Bool.not_true, Bool.or_false]
    refine ⟨made, s', hresult, { wellFormed := hfilled.wellFormed, made_iff := ?_, pte_eq := ?_ }, hpmm, ?_⟩
    . rw [hfilled.made_iff, hpte i j hi hj]
    . intro k l hk hl
      rw [hfilled.pte_eq k l hk hl, hpte k l hk hl, hpte i j hi hj]
    . rw [hnull]
      change (s.nullReturned || decide ((pmmAllocPage s.pmm).1 = 0)) = _
      rw [decide_eq_false hfound, Bool.or_false]
  | fault hzero hfound habsent =>
    rw [hpresent] at habsent
    contradiction

theorem vmmSetMapping_refines {s : Machine} (h : s.WellFormed) (page : VPage) (pa attr : Word)
    (hmappable : s.Mappable pa attr)
    : ∃ s', vmmSetMapping page.va pa attr s = .ok () s'
        ∧ s'.WellFormed
        ∧ s'.addrMap = s.addrMap.setMapping page pa attr (s.ready (l1Index page.va)) := by
  obtain ⟨made, s', hresult, hfilled, _⟩ :=
    vmmMapInternal_refines h (l1Index page.va) (l2Index page.va) page.below
    (l2Index_lt page.va) pa attr hmappable
  have hwf := hfilled.wellFormed
  have hbelow := page.below
  refine ⟨s', ?_, hwf, ?_⟩
  . unfold vmmSetMapping
    rw [if_neg (by omega), bind_ok _ hresult]
    rfl
  . have hnew := decodeEntry_newL2Entry attr pa (by rw [← hasFlags_pgPresent, hmappable.present])
      hmappable.attr_le
    have hnone : s.addrMap page = none ↔ s.pte (l1Index page.va) (l2Index page.va) = 0 := by
      rw [addrMap_eq h, decodeEntry_eq_none]
    funext q
    unfold AddrMap.setMapping
    rw [addrMap_eq hwf, hfilled.pte_eq _ _ q.below (l2Index_lt q.va)]
    by_cases hset : s.pte (l1Index page.va) (l2Index page.va) = 0 ∧ s.ready (l1Index page.va) = true
    . have hset' : s.addrMap page = none ∧ s.ready (l1Index page.va) = true := ⟨hnone.mpr hset.1, hset.2⟩
      rw [if_pos hset']
      by_cases hq : q = page
      . subst hq
        rw [if_pos ⟨⟨rfl, rfl⟩, hset⟩, hnew, Function.update_self]
      . rw [if_neg (fun hand => hq (VPage.eq_of_index hand.1.1 hand.1.2)), Function.update_of_ne hq,
          addrMap_eq h]
    . have hset' : ¬(s.addrMap page = none ∧ s.ready (l1Index page.va) = true) :=
        fun hand => hset ⟨hnone.mp hand.1, hand.2⟩
      rw [if_neg hset', if_neg (fun hand => hset hand.2), addrMap_eq h]

theorem vmmUnmapPage_pte {s : Machine} (h : s.WellFormed) (va : Word) (hslot : l1Index va < 1023)
    : ∃ s', vmmUnmapPage va s = .ok () s'
        ∧ s'.WellFormed
        ∧ s'.nullReturned = s.nullReturned
        ∧ ∀ k l, k < 1023 → s'.pte k l = if k = l1Index va ∧ l = l2Index va then 0 else s.pte k l := by
  have hl2 := l2Index_lt va
  have hcases := vmmUnmapPage_cases h.toSelfMapped va
  generalize vmmUnmapPage va s = r at hcases ⊢
  cases hcases with
  | guarded hguard => omega
  | absent hslot hzero =>
    refine ⟨s, rfl, h, rfl, ?_⟩
    intro k l _
    split
    . next heq =>
      unfold pte
      rw [heq.1, if_pos hzero]
    . rfl
  | fault hslot hne e habsent =>
    rw [(h.tables _ hslot).resolve_left hne] at habsent
    contradiction
  | cleared hslot hpresent =>
    have hmem := s.releasedEntry_mem (s.table (l1Index va) (l2Index va))
    have hcr3 := s.releasedEntry_cr3 (s.table (l1Index va) (l2Index va))
    have hrec : (s.releasedEntry (s.table (l1Index va) (l2Index va))).Recursive := h.recursive.congr hmem hcr3
    have hne : (s.releasedEntry (s.table (l1Index va) (l2Index va))).dir (l1Index va) ≠ 0 := by
      rw [dir_congr hmem hcr3]
      exact ne_zero_of_isCached hpresent
    refine ⟨_, rfl, h.clearTable _ _ hslot hl2 hpresent, s.releasedEntry_nullReturned _, ?_⟩
    intro k l hk
    rw [hrec.pte_setTable _ _ 0 hslot hne k l hk, pte_congr hmem hcr3]

theorem vmmUnmapPage_refines {s : Machine} (h : s.WellFormed) (page : VPage)
    : ∃ s', vmmUnmapPage page.va s = .ok () s'
        ∧ s'.WellFormed
        ∧ s'.addrMap = s.addrMap.unmapPage page := by
  obtain ⟨s', hresult, hwf, _, hpte⟩ := vmmUnmapPage_pte h page.va page.below
  refine ⟨s', hresult, hwf, ?_⟩
  funext q
  unfold AddrMap.unmapPage
  rw [addrMap_eq hwf, hpte _ _ q.below]
  by_cases hq : q = page
  . subst hq
    rw [if_pos ⟨rfl, rfl⟩, Function.update_self]
    rfl
  . rw [if_neg (fun hand => hq (VPage.eq_of_index hand.1 hand.2)), Function.update_of_ne hq, addrMap_eq h]

/--
A run of `vmm_set_mapping` and `vmm_unmap_page`.
-/
inductive MapRun (s₀ : Machine) : Machine → Prop
  | start : MapRun s₀ s₀
  | setMapping {s s' : Machine} (hrun : MapRun s₀ s) (page : VPage) (pa attr : Word)
      (hmappable : s.Mappable pa attr) (hresult : vmmSetMapping page.va pa attr s = .ok () s')
      : MapRun s₀ s'
  | unmapPage {s s' : Machine} (hrun : MapRun s₀ s) (page : VPage)
      (hresult : vmmUnmapPage page.va s = .ok () s')
      : MapRun s₀ s'

theorem MapRun.wellFormed {s₀ s : Machine} (hrun : MapRun s₀ s) (h : s₀.WellFormed) : s.WellFormed := by
  induction hrun with
  | start => exact h
  | setMapping hrun page pa attr hmappable hresult ih =>
    obtain ⟨s', hresult', hwf, _⟩ := vmmSetMapping_refines ih page pa attr hmappable
    rw [hresult] at hresult'
    injection hresult' with _ heq
    rw [heq]
    exact hwf
  | unmapPage hrun page hresult ih =>
    obtain ⟨s', hresult', hwf, _⟩ := vmmUnmapPage_refines ih page
    rw [hresult] at hresult'
    injection hresult' with _ heq
    rw [heq]
    exact hwf

/--
In every run the operations on mappings do not fault, and they act on the map that `vmm_lookup` shows as
the operations on the flat map do.
-/
theorem vmm_refines_addrMap {s₀ s : Machine} (h : s₀.WellFormed) (hrun : MapRun s₀ s)
    : (∀ page : VPage, ∃ mapping, vmmLookup page.va s = .ok mapping s)
        ∧ (∀ (page : VPage) (pa attr : Word), s.Mappable pa attr →
            ∃ s', vmmSetMapping page.va pa attr s = .ok () s'
              ∧ s'.addrMap = s.addrMap.setMapping page pa attr (s.ready (l1Index page.va)))
        ∧ ∀ page : VPage,
            ∃ s', vmmUnmapPage page.va s = .ok () s'
              ∧ s'.addrMap = s.addrMap.unmapPage page := by
  have hwf := hrun.wellFormed h
  refine ⟨?_, ?_, ?_⟩
  . intro page
    exact ⟨_, lookup_eq hwf.toSelfMapped hwf.tables page.va⟩
  . intro page pa attr hmappable
    obtain ⟨s', hresult, _, hmap⟩ := vmmSetMapping_refines hwf page pa attr hmappable
    exact ⟨s', hresult, hmap⟩
  . intro page
    obtain ⟨s', hresult, _, hmap⟩ := vmmUnmapPage_refines hwf page
    exact ⟨s', hresult, hmap⟩

theorem dir_of_directory {s : Machine} (hmem : s.mem = directoryOnly.mem)
    (hcr3 : s.cr3 = directoryOnly.cr3) (i : Nat)
    : s.dir i = if i = 1023 then 0x1013 else 0 := by
  rw [dir_congr hmem hcr3, dir_directoryOnly]

theorem wellFormed_of_directory {s : Machine} (hmem : s.mem = directoryOnly.mem)
    (hcr3 : s.cr3 = directoryOnly.cr3) (hoccupied : s.pmm.occupied 1 = true)
    : s.WellFormed where
  toOwned := owned_of_directory hmem hcr3 hoccupied
  tables := by
    intro i hi
    left
    rw [dir_of_directory hmem hcr3, if_neg (by omega)]

theorem wellFormed_bootMachine : bootMachine.WellFormed :=
  wellFormed_of_directory rfl rfl (by decide)

/--
The page at 4 MiB is mapped to frame 9, for which a page table is made, and unmapped.
-/
theorem vmm_refines_addrMap_bootMachine
    : ∃ s₁ s₂, vmmSetMapping 0x400000 0x9000 3 bootMachine = .ok () s₁
        ∧ s₁.addrMap ⟨0x400000, by decide, by decide⟩ = some (0x9000, 3)
        ∧ (∀ page : VPage, page.va ≠ 0x400000 → s₁.addrMap page = bootMachine.addrMap page)
        ∧ vmmUnmapPage 0x400000 s₁ = .ok () s₂
        ∧ s₂.addrMap ⟨0x400000, by decide, by decide⟩ = none := by
  have hmappable : bootMachine.Mappable 0x9000 3 := {
    present := by decide
    attr_le := by decide
    occupied := by decide
    unreferenced := by
      intro slot h
      rw [@refs_congr directoryOnly bootMachine rfl rfl] at h
      exact absurd (refs_directoryOnly h).2 (by decide)
  }
  have hempty : bootMachine.addrMap ⟨0x400000, by decide, by decide⟩ = none := by decide +kernel
  have hready : bootMachine.ready (l1Index 0x400000) = true := by decide +kernel
  obtain ⟨s₁, hset, hmap⟩ := (vmm_refines_addrMap wellFormed_bootMachine .start).2.1 ⟨0x400000,
    by decide, by decide⟩ 0x9000 3 hmappable
  have hrun := MapRun.start.setMapping ⟨0x400000, by decide, by decide⟩ 0x9000 3 hmappable hset
  obtain ⟨s₂, hunmap, hmap'⟩ :=
    (vmm_refines_addrMap wellFormed_bootMachine hrun).2.2 ⟨0x400000, by decide, by decide⟩
  rw [hready] at hmap
  refine ⟨s₁, s₂, hset, ?_, ?_, hunmap, ?_⟩
  . rw [hmap]
    unfold AddrMap.setMapping
    rw [if_pos ⟨hempty, rfl⟩, Function.update_self]
    rfl
  . intro page hne
    rw [hmap]
    unfold AddrMap.setMapping
    rw [if_pos ⟨hempty, rfl⟩, Function.update_of_ne]
    intro heq
    exact hne (congrArg VPage.va heq)
  . rw [hmap']
    unfold AddrMap.unmapPage
    rw [Function.update_self]

end AwaOS
