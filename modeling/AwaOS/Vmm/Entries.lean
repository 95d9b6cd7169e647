import AwaOS.Vmm.AllocPages

/-!
What a call of `__vmm_map_internal` writes: one entry of a page table, and before that the table itself if
it is not there. Nothing is assumed about the frames of the pages that are mapped.
-/

namespace AwaOS

namespace Machine

variable {s : Machine}

/--
The page table entry of virtual page `vpn`.
-/
def entry (s : Machine) (vpn : Nat) : Word :=
  s.pte (vpn / 1024) (vpn % 1024)

instance (s : Machine) (vpn : Nat) : Decidable (s.Mapped vpn) :=
  inferInstanceAs (Decidable (_ ≠ _))

theorem entry_index {i j : Nat} (hj : j < 1024) : s.entry (i * 1024 + j) = s.pte i j := by
  have hdiv : (i * 1024 + j) / 1024 = i := by omega
  have hmod : (i * 1024 + j) % 1024 = j := by omega
  unfold entry
  rw [hdiv, hmod]

theorem entry_va (va : Word) : s.entry (va.toNat / 4096) = s.pte (l1Index va) (l2Index va) := by
  unfold entry
  rw [l1Index_eq, l2Index_eq, Nat.div_div_eq_div_mul]

theorem entry_of_absent {v : Nat} (habsent : s.dir (v / 1024) = 0) : s.entry v = 0 := by
  unfold entry pte
  rw [if_pos habsent]

theorem entry_of_table {v : Nat} (hne : s.dir (v / 1024) ≠ 0) : s.entry v = s.table (v / 1024) (v % 1024) := by
  unfold entry pte
  rw [if_neg hne]

/--
The entries of the directory are empty or refer to page tables, which are distinct and marked as occupied.
-/
structure Tabled (s : Machine) : Prop extends s.Recursive where
  occupied : s.TablesOccupied
  tables : ∀ i, i < 1023 → s.dir i = 0 ∨ isCached (s.dir i) = true

theorem WellFormed.tabled (h : s.WellFormed) : s.Tabled where
  toRecursive := h.recursive
  occupied := h.tablesOccupied
  tables := h.tables

theorem Tabled.isCached_dir (h : s.Tabled) {i : Nat} (hi : i < 1023) (hne : s.dir i ≠ 0)
    : isCached (s.dir i) = true :=
  (h.tables i hi).resolve_left hne

theorem Tabled.allocated (h : s.Tabled) : s.allocated.Tabled where
  toRecursive := h.toRecursive.congr rfl rfl
  occupied := fun i hi hne => s.occupied_allocated _ (h.occupied i hi hne)
  tables := h.tables

theorem Tabled.setTable (h : s.Tabled) (i j : Nat) (w : Word) (hi : i < 1023) (hne : s.dir i ≠ 0)
    : (s.setTable i j w).Tabled where
  toRecursive := h.toRecursive.setTable i j w hi hne
  occupied := by
    intro k hk
    rw [h.dir_setTable i j w hi hne]
    exact h.occupied k hk
  tables := by
    intro k hk
    rw [h.dir_setTable i j w hi hne]
    exact h.tables k hk

/--
The entry of the directory for a page table in a new frame.
-/
def newTable (s : Machine) (attr : Word) : Word :=
  newL1Entry attr (pmmAllocPage s.pmm).1

theorem isCached_newTable (s : Machine) (attr : Word) : isCached (s.newTable attr) = isCached attr := by
  unfold newTable
  rw [newL1Entry_eq, isCached_newL2Entry]

theorem newTable_ne_zero {attr : Word} (hattr : isCached attr = true) : s.newTable attr ≠ 0 := by
  apply ne_zero_of_isCached
  rw [isCached_newTable, hattr]

theorem Tabled.fresh_newTable (h : s.Tabled) (hfound : (pmmAllocPage s.pmm).1 ≠ 0) (attr : Word)
    : s.allocated.Fresh (frameOf (s.newTable attr)) :=
  h.occupied.fresh_newL1Entry hfound attr

section InstallTable

variable (i : Nat) (attr : Word)

theorem Tabled.dir_installTable (h : s.Tabled) (hfound : (pmmAllocPage s.pmm).1 ≠ 0) (k : Nat)
    : (s.allocated.installTable i (s.newTable attr)).dir k = if k = i then s.newTable attr else s.dir k := by
  rw [h.allocated.toSelfMapped.dir_installTable i _ (h.fresh_newTable hfound attr), dir_allocated]

theorem Tabled.installTable (h : s.Tabled) (hi : i < 1023) (hfound : (pmmAllocPage s.pmm).1 ≠ 0)
    (hattr : isCached attr = true)
    : (s.allocated.installTable i (s.newTable attr)).Tabled where
  toRecursive := h.allocated.toRecursive.installTable i _ hi (h.fresh_newTable hfound attr)
  occupied := by
    intro k hk
    rw [h.dir_installTable i attr hfound, pmm_installTable]
    by_cases hki : k = i
    . rw [if_pos hki]
      intro _
      unfold newTable
      rw [frameOf_newL1Entry]
      exact s.occupied_allocated_self hfound
    . rw [if_neg hki]
      exact h.allocated.occupied k hk
  tables := by
    intro k hk
    rw [h.dir_installTable i attr hfound]
    by_cases hki : k = i
    . right
      rw [if_pos hki, isCached_newTable, hattr]
    . rw [if_neg hki]
      exact h.tables k hk

/--
A new page table is empty.
-/
theorem Tabled.table_installTable (h : s.Tabled) (hi : i < 1023) (hfound : (pmmAllocPage s.pmm).1 ≠ 0) (j : Nat)
    (hj : j < 1024)
    : (s.allocated.installTable i (s.newTable attr)).table i j = 0 := by
  rw [h.allocated.toRecursive.table_installTable i _ (h.fresh_newTable hfound attr) i j hi (Or.inl rfl) hj,
    if_pos rfl]

theorem Tabled.entry_installTable (h : s.Tabled) (hzero : s.dir i = 0)
    (hfound : (pmmAllocPage s.pmm).1 ≠ 0) (v : Nat) (hv : v < vpnEnd)
    : (s.allocated.installTable i (s.newTable attr)).entry v = s.entry v := by
  unfold vpnEnd at hv
  exact h.allocated.toRecursive.pte_installTable i _ (h.fresh_newTable hfound attr) hzero _ _ (by omega)
    (by omega)

end InstallTable

/--
From `s` to `s'`, page `vpn` is mapped, with a new page table if there was none.
-/
structure MadeEntry (s : Machine) (vpn : Nat) (pa attr : Word) (s' : Machine) : Prop where
  recursive : s'.Recursive
  tables : ∀ i, i < 1023 → s'.dir i = 0 ∨ isCached (s'.dir i) = true
  entry_self : s'.entry vpn = newL2Entry attr pa
  entry_other : ∀ v, v < vpnEnd → v ≠ vpn → s'.entry v = s.entry v
  dir_kept : ∀ i, i < 1024 → s.dir i ≠ 0 → s'.dir i = s.dir i
  dir_self : s.dir (vpn / 1024) = 0 → s'.dir (vpn / 1024) = s.newTable attr
  dir_other : ∀ i, i < 1023 → i ≠ vpn / 1024 → s'.dir i = s.dir i

theorem MadeEntry.of_allocated {vpn : Nat} {pa attr : Word} {s' : Machine}
    (h : MadeEntry s.allocated vpn pa attr s') (hne : s.dir (vpn / 1024) ≠ 0)
    : MadeEntry s vpn pa attr s' where
  recursive := h.recursive
  tables := h.tables
  entry_self := h.entry_self
  entry_other := h.entry_other
  dir_kept := h.dir_kept
  dir_self := fun hzero => absurd hzero hne
  dir_other := h.dir_other

theorem Tabled.madeEntry_setTable (h : s.Tabled) {vpn : Nat} (pa attr : Word) (hvpn : vpn < vpnEnd)
    (hne : s.dir (vpn / 1024) ≠ 0)
    : MadeEntry s vpn pa attr (s.setTable (vpn / 1024) (vpn % 1024) (newL2Entry attr pa)) := by
  have hi : vpn / 1024 < 1023 := by
    unfold vpnEnd at hvpn
    omega
  have hset := h.setTable (vpn / 1024) (vpn % 1024) (newL2Entry attr pa) hi hne
  have hdir := h.dir_setTable (vpn / 1024) (vpn % 1024) (newL2Entry attr pa) hi hne
  have hpte := h.toRecursive.pte_setTable (vpn / 1024) (vpn % 1024) (newL2Entry attr pa) hi hne
  constructor
  . exact hset.toRecursive
  . exact hset.tables
  . unfold entry
    rw [hpte _ _ hi, if_pos ⟨rfl, rfl⟩]
  . intro v hv hvne
    unfold vpnEnd at hv
    unfold entry
    rw [hpte _ _ (by omega), if_neg]
    omega
  . intro i _ _
    exact hdir i
  . intro hzero
    exact absurd hzero hne
  . intro i _ _
    exact hdir i

/--
The entry that was replaced is released before.
-/
theorem Tabled.madeEntry_releasedEntry (h : s.Tabled) {vpn : Nat} (pa attr entry : Word) (hvpn : vpn < vpnEnd)
    (hne : s.dir (vpn / 1024) ≠ 0)
    : MadeEntry s vpn pa attr
        ((s.releasedEntry entry).setTable (vpn / 1024) (vpn % 1024) (newL2Entry attr pa)) := by
  have hmem := s.releasedEntry_mem entry
  have hcr3 := s.releasedEntry_cr3 entry
  have hsame : ((s.releasedEntry entry).setTable (vpn / 1024) (vpn % 1024) (newL2Entry attr pa)).mem
      = (s.setTable (vpn / 1024) (vpn % 1024) (newL2Entry attr pa)).mem := by
    unfold Machine.setTable setWord
    rw [dir_congr hmem hcr3, hmem]
  have hmade := h.madeEntry_setTable pa attr hvpn hne
  have hdir := dir_congr hsame hcr3
  constructor
  . exact hmade.recursive.congr hsame hcr3
  . intro i hi
    rw [hdir]
    exact hmade.tables i hi
  . exact (pte_congr hsame hcr3 _ _).trans hmade.entry_self
  . intro v hv hvne
    exact (pte_congr hsame hcr3 _ _).trans (hmade.entry_other v hv hvne)
  . intro i hi hine
    rw [hdir]
    exact hmade.dir_kept i hi hine
  . intro hzero
    exact absurd hzero hne
  . intro i hi hine
    rw [hdir]
    exact hmade.dir_other i hi hine

theorem Tabled.madeEntry_installTable (h : s.Tabled) {vpn : Nat} (pa attr : Word) (hvpn : vpn < vpnEnd)
    (hzero : s.dir (vpn / 1024) = 0) (hfound : (pmmAllocPage s.pmm).1 ≠ 0) (hattr : isCached attr = true)
    : MadeEntry s vpn pa attr
        ((s.allocated.installTable (vpn / 1024) (s.newTable attr)).setTable (vpn / 1024) (vpn % 1024)
          (newL2Entry attr pa)) := by
  have hi : vpn / 1024 < 1023 := by
    unfold vpnEnd at hvpn
    omega
  have hdir := h.dir_installTable (vpn / 1024) attr hfound
  have hself := hdir (vpn / 1024)
  rw [if_pos rfl] at hself
  have hne : (s.allocated.installTable (vpn / 1024) (s.newTable attr)).dir (vpn / 1024) ≠ 0 := by
    rw [hself]
    exact newTable_ne_zero hattr
  have hmade := (h.installTable (vpn / 1024) attr hi hfound hattr).madeEntry_setTable pa attr hvpn hne
  constructor
  . exact hmade.recursive
  . exact hmade.tables
  . exact hmade.entry_self
  . intro v hv hvne
    rw [hmade.entry_other v hv hvne, h.entry_installTable (vpn / 1024) attr hzero hfound v hv]
  . intro i hi' hine
    have hother : i ≠ vpn / 1024 := by
      intro heq
      rw [heq] at hine
      exact hine hzero
    have hkept := hdir i
    rw [if_neg hother] at hkept
    rw [hmade.dir_kept i hi' (by rw [hkept]; exact hine), hkept]
  . intro _
    rw [hmade.dir_kept _ (by omega) hne, hself]
  . intro i hi' hother
    rw [hmade.dir_other i hi' hother, hdir i, if_neg hother]

end Machine

open Machine

/--
The ways in which `__vmm_map_internal` ends for page `vpn`, with page tables that are in order and an
`attr` that contains `PG_PRESENT`.
-/
inductive MapInternal (s : Machine) (vpn : Nat) (pa attr : Word) (forced : Bool)
    : EStateM.Result PageFault Machine Bool → Prop
  | noTable (hzero : s.dir (vpn / 1024) = 0) (hnull : (pmmAllocPage s.pmm).1 = 0)
      : MapInternal s vpn pa attr forced (.ok false s.allocated)
  | taken (hne : s.entry vpn ≠ 0) (hforced : forced = false) : MapInternal s vpn pa attr forced (.ok false s)
  | made (hdir : s.dir (vpn / 1024) ≠ 0) (hempty : s.entry vpn = 0)
      : MapInternal s vpn pa attr forced
          (.ok true (s.setTable (vpn / 1024) (vpn % 1024) (newL2Entry attr pa)))
  | madeTable (hzero : s.dir (vpn / 1024) = 0) (hfound : (pmmAllocPage s.pmm).1 ≠ 0)
      : MapInternal s vpn pa attr forced
          (.ok true ((s.allocated.installTable (vpn / 1024) (s.newTable attr)).setTable (vpn / 1024) (vpn % 1024)
            (newL2Entry attr pa)))
  | replaced (hne : s.entry vpn ≠ 0) (hforced : forced = true)
      : MapInternal s vpn pa attr forced
          (.ok true ((s.releasedEntry (s.entry vpn)).setTable (vpn / 1024) (vpn % 1024) (newL2Entry attr pa)))

theorem vmmMapInternal_cases {s : Machine} (h : s.Tabled) {vpn : Nat} (hvpn : vpn < vpnEnd) (pa attr : Word)
    (hattr : isCached attr = true) (forced : Bool)
    : MapInternal s vpn pa attr forced (vmmMapInternal (vpn / 1024) (vpn % 1024) pa attr forced s) := by
  have hi : vpn / 1024 < 1023 := by
    unfold vpnEnd at hvpn
    omega
  have hj : vpn % 1024 < 1024 := by omega
  have htable := vmmMapInternal.makeTable_cases h.toSelfMapped h.occupied (vpn / 1024) (by omega) attr
  rw [vmmMapInternal_eq]
  generalize vmmMapInternal.makeTable (vpn / 1024) attr s = r at htable ⊢
  cases htable with
  | kept hne =>
    have hpresent := h.isCached_dir hi hne
    have hentry := entry_of_table hne
    have hcases := vmmMapInternal.makeEntry_cases h.toSelfMapped (vpn / 1024) (vpn % 1024)
      (by omega) hj pa attr forced
    dsimp only
    generalize vmmMapInternal.makeEntry (vpn / 1024) (vpn % 1024) pa attr forced s = r at hcases ⊢
    cases hcases with
    | fault habsent =>
      rw [hpresent] at habsent
      contradiction
    | taken _ hfull hforced => exact .taken (by rw [hentry]; exact hfull) hforced
    | made _ hempty => exact .made hne (by rw [hentry]; exact hempty)
    | forced _ hfull hforced =>
      rw [← hentry]
      exact .replaced (by rw [hentry]; exact hfull) hforced
  | null hzero hnull => exact .noTable hzero hnull
  | made hzero hfound _ =>
    have hinstalled := h.installTable (vpn / 1024) attr hi hfound hattr
    have hempty := h.table_installTable (vpn / 1024) attr hi hfound (vpn % 1024) hj
    have hmade := @MapInternal.madeTable s vpn pa attr forced hzero hfound
    have hcases := vmmMapInternal.makeEntry_cases hinstalled.toSelfMapped (vpn / 1024) (vpn % 1024)
      (by omega) hj pa attr forced
    unfold newTable at *
    dsimp only
    generalize vmmMapInternal.makeEntry (vpn / 1024) (vpn % 1024) pa attr forced _ = r at hcases ⊢
    cases hcases with
    | fault habsent =>
      have hself := h.dir_installTable (vpn / 1024) attr hfound (vpn / 1024)
      unfold newTable at hself
      rw [hself, if_pos rfl, newL1Entry_eq, isCached_newL2Entry, hattr] at habsent
      contradiction
    | taken _ hfull => exact absurd hempty hfull
    | made => exact hmade
    | forced _ hfull => exact absurd hempty hfull
  | fault hzero hfound habsent =>
    rw [hattr] at habsent
    contradiction

/--
What is true of every call that maps its page.
-/
theorem MapInternal.madeEntry {s s' : Machine} {vpn : Nat} {pa attr : Word} {forced : Bool} (h : s.Tabled)
    (hvpn : vpn < vpnEnd) (hattr : isCached attr = true)
    (hcases : MapInternal s vpn pa attr forced (.ok true s'))
    : MadeEntry s vpn pa attr s' := by
  cases hcases with
  | made hdir _ => exact h.madeEntry_setTable pa attr hvpn hdir
  | madeTable hzero hfound => exact h.madeEntry_installTable pa attr hvpn hzero hfound hattr
  | replaced hne _ =>
    have hdir : s.dir (vpn / 1024) ≠ 0 := fun hzero => hne (entry_of_absent hzero)
    exact h.madeEntry_releasedEntry pa attr _ hvpn hdir

end AwaOS
