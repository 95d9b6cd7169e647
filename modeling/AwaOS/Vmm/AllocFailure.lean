import AwaOS.Vmm.Orphans

/-!
How `vmm_alloc_pages` ends, page by page: which frames it takes for the pages and for their tables, and
what is left of them after a page has failed.
-/

namespace AwaOS

open Machine

/--
Neither a word of memory nor a bit of the bitmap differs. `pg_lookup_ptr` may have moved.
-/
structure SameFrames (s s' : Machine) : Prop where
  mem : s'.mem = s.mem
  cr3 : s'.cr3 = s.cr3
  occupied : ∀ frame, s'.pmm.occupied frame = s.pmm.occupied frame
  maxPg : s'.pmm.maxPg = s.pmm.maxPg

theorem SameFrames.refl (s : Machine) : SameFrames s s :=
  ⟨rfl, rfl, fun _ => rfl, rfl⟩

theorem sameFrames_allocated {s : Machine} (hnull : (pmmAllocPage s.pmm).1 = 0) : SameFrames s s.allocated :=
  ⟨rfl, rfl, occupied_allocated_null hnull, s.pmm.maxPg_pmmAllocPage⟩

section SameFrames

variable {s s' : Machine}

theorem SameFrames.dir_eq (h : SameFrames s s') (i : Nat) : s'.dir i = s.dir i :=
  dir_congr h.mem h.cr3 i

theorem SameFrames.entry_eq (h : SameFrames s s') (v : Nat) : s'.entry v = s.entry v :=
  pte_congr h.mem h.cr3 _ _

theorem SameFrames.stray_iff (h : SameFrames s s') (frame : Nat) : s'.Stray frame ↔ s.Stray frame :=
  stray_congr h.mem h.cr3 h.occupied frame

theorem SameFrames.wellFormed (h : SameFrames s s') (hwf : s.WellFormed) : s'.WellFormed where
  toSelfMapped := hwf.toSelfMapped.congr h.mem h.cr3
  owns := by
    rw [funext (refs_congr h.mem h.cr3), funext h.occupied]
    exact hwf.owns
  tables := by
    intro i hi
    rw [h.dir_eq]
    exact hwf.tables i hi

end SameFrames

/--
A call of `__vmm_map_internal` that fails changes nothing.
-/
theorem MapInternal.refused {s s' : Machine} {vpn : Nat} {pa attr : Word} {forced : Bool}
    (hcases : MapInternal s vpn pa attr forced (.ok false s'))
    : SameFrames s s' ∧ (s.entry vpn ≠ 0 ∨ (s.dir (vpn / 1024) = 0 ∧ (pmmAllocPage s.pmm).1 = 0)) := by
  cases hcases with
  | noTable hzero hnull => exact ⟨sameFrames_allocated hnull, Or.inr ⟨hzero, hnull⟩⟩
  | taken hne _ => exact ⟨.refl _, Or.inl hne⟩

/--
A page that is mapped to a stray frame.
-/
theorem MapInternal.wellFormed {s s' : Machine} (h : s.WellFormed) {vpn : Nat} (hvpn : vpn < vpnEnd)
    {pa attr : Word} (hattr : isCached attr = true) (hstray : s.Stray (pa >>> 12).toNat)
    (hcases : MapInternal s vpn pa attr false (.ok true s'))
    : s'.WellFormed ∧ ∀ frame, s'.Stray frame ↔ s.Stray frame ∧ frame ≠ (pa >>> 12).toNat := by
  have hi : vpn / 1024 < 1023 := by
    unfold vpnEnd at hvpn
    omega
  have hj : vpn % 1024 < 1024 := by omega
  have hframe : frameOf (newL2Entry attr pa) = (pa >>> 12).toNat := frameOf_newL2Entry attr pa
  have hcached : isCached (newL2Entry attr pa) = true := by rw [isCached_newL2Entry, hattr]
  cases hcases with
  | made hdir hempty =>
    have hpresent := h.tabled.isCached_dir hi hdir
    rw [entry_of_table hdir] at hempty
    constructor
    . apply h.setTable _ _ _ hi hj hpresent
      . rw [hframe]
        exact hstray.1
      . rw [hframe]
        exact hstray.2
    . rw [← hframe]
      exact h.recursive.stray_setTable hi hj hpresent hempty hcached
  | madeTable hzero hfound =>
    have hinstalled := h.installTable (vpn / 1024) attr hi hfound hattr
    have hkept := h.stray_installTable attr hi hzero hfound hattr
    have hstray' := (hkept _).mpr hstray
    have hempty := h.tabled.table_installTable (vpn / 1024) attr hi hfound (vpn % 1024) hj
    have hpresent :
        isCached ((s.allocated.installTable (vpn / 1024) (s.newTable attr)).dir (vpn / 1024)) = true := by
      rw [h.tabled.dir_installTable (vpn / 1024) attr hfound, if_pos rfl, isCached_newTable, hattr]
    constructor
    . apply hinstalled.setTable _ _ _ hi hj hpresent
      . rw [hframe]
        exact hstray'.1
      . rw [hframe]
        exact hstray'.2
    . intro frame
      rw [← hframe, ← hkept]
      exact hinstalled.recursive.stray_setTable hi hj hpresent hempty hcached frame
  | replaced _ hforced => contradiction

theorem MapInternal.pmm_eq {s s' : Machine} {vpn : Nat} {pa attr : Word}
    (hcases : MapInternal s vpn pa attr false (.ok true s'))
    : s.pmm.Supplies (if s.dir (vpn / 1024) = 0 then 1 else 0)
        ∧ s'.pmm = s.pmm.afterAllocs (if s.dir (vpn / 1024) = 0 then 1 else 0) := by
  cases hcases with
  | made hdir _ =>
    rw [if_neg hdir]
    exact ⟨trivial, rfl⟩
  | madeTable hzero hfound =>
    rw [if_pos hzero]
    exact ⟨⟨hfound, trivial⟩, rfl⟩
  | replaced _ hforced => contradiction

/--
The ways in which one page of `vmm_alloc_pages` ends.
-/
inductive MapNext (s : Machine) (vpn : Nat) (attr : Word) : EStateM.Result PageFault Machine Bool → Prop
  | noFrame (hnull : (pmmAllocPage s.pmm).1 = 0) : MapNext s vpn attr (.ok false s.allocated)
  | refused (s' : Machine) (hfound : (pmmAllocPage s.pmm).1 ≠ 0)
      (hcases : MapInternal s.allocated vpn (pmmAllocPage s.pmm).1 attr false (.ok false s'))
      : MapNext s vpn attr (.ok false s')
  | made (s' : Machine) (hfound : (pmmAllocPage s.pmm).1 ≠ 0)
      (hcases : MapInternal s.allocated vpn (pmmAllocPage s.pmm).1 attr false (.ok true s'))
      : MapNext s vpn attr (.ok true s')

/--
There is no page fault below the window onto the page tables.
-/
theorem vmmMapInternal_returns {s : Machine} (h : s.Tabled) {va : Word} (hva : va.toNat / 4096 < vpnEnd)
    (pa attr : Word) (hattr : isCached attr = true) (forced : Bool)
    : ∃ made s', vmmMapInternal (l1Index va) (l2Index va) pa attr forced s = .ok made s'
        ∧ MapInternal s (va.toNat / 4096) pa attr forced (.ok made s') := by
  have hcases := vmmMapInternal_cases h hva pa attr hattr forced
  rw [(index_div va).1, (index_div va).2] at hcases
  generalize vmmMapInternal (l1Index va) (l2Index va) pa attr forced s = r at hcases
  cases r with
  | error e s' => nomatch hcases
  | ok made s' => exact ⟨made, s', rfl, hcases⟩

theorem mapNext_cases {s : Machine} (h : s.Tabled) {va : Word} (hva : va.toNat / 4096 < vpnEnd) {attr : Word}
    (hattr : isCached attr = true)
    : MapNext s (va.toNat / 4096) attr (vmmAllocPages.mapNext va attr s) := by
  unfold vmmAllocPages.mapNext
  rw [bind_ok _ (callPmmAllocPage_eq s)]
  by_cases hnull : (pmmAllocPage s.pmm).1 = 0
  . rw [if_pos hnull]
    exact .noFrame hnull
  . rw [if_neg hnull]
    obtain ⟨made, s', hmap, hcases⟩ :=
      vmmMapInternal_returns h.allocated hva (pmmAllocPage s.pmm).1 attr hattr false
    rw [hmap]
    cases made with
    | true => exact .made s' hnull hcases
    | false => exact .refused s' hnull hcases

/--
All free frames are below `max_pg`, so that `pmm_free_page` takes them back.
-/
def Machine.FreeBelow (s : Machine) : Prop :=
  ∀ frame, frame < 2 ^ 20 → s.pmm.occupied frame = false → frame < s.pmm.maxPg

/--
Page `n` of the range that starts at page `vpn` is the first one of its page table, which is not there.
-/
def NeedsTable (s : Machine) (vpn n : Nat) : Prop :=
  s.dir ((vpn + n) / 1024) = 0 ∧ (n = 0 ∨ (vpn + n) % 1024 = 0)

instance (s : Machine) (vpn n : Nat) : Decidable (NeedsTable s vpn n) :=
  inferInstanceAs (Decidable (_ ∧ _))

/--
The number of frames for the first `n` pages of a range and for the page tables that they need.
-/
def framesTaken (s : Machine) (vpn : Nat) : Nat → Nat
  | 0 => 0
  | n + 1 => framesTaken s vpn n + (if NeedsTable s vpn n then 2 else 1)

theorem framesTaken_mono (s : Machine) (vpn : Nat) {n m : Nat} (hle : n ≤ m)
    : framesTaken s vpn n ≤ framesTaken s vpn m := by
  induction hle with
  | refl => exact Nat.le_refl _
  | step hle ih =>
    rw [framesTaken]
    exact Nat.le_trans ih (Nat.le_add_right _ _)

/--
From `s₀` to `s`, the first `n` pages from `vpn` on were mapped.
-/
structure MadePages (s₀ : Machine) (vpn n : Nat) (attr : Word) (s : Machine) : Prop where
  wellFormed : s.WellFormed
  dir_kept : ∀ i, i < 1024 → s₀.dir i ≠ 0 → s.dir i = s₀.dir i
  dir_iff : ∀ i, i < 1023 → (s.dir i ≠ 0 ↔ s₀.dir i ≠ 0 ∨ ∃ m, m < n ∧ (vpn + m) / 1024 = i)
  fresh : ∀ m, m < n → s₀.entry (vpn + m) = 0
  entry_made : ∀ m, m < n → ∃ pa, s.entry (vpn + m) = newL2Entry attr pa
    ∧ (s₀.FreeBelow → (pa >>> 12).toNat ≠ 0 ∧ (pa >>> 12).toNat < s₀.pmm.maxPg)
  entry_kept : ∀ v, v < vpnEnd → ¬(vpn ≤ v ∧ v < vpn + n) → s.entry v = s₀.entry v
  stray : ∀ frame, s.Stray frame ↔ s₀.Stray frame
  supplies : s₀.pmm.Supplies (framesTaken s₀ vpn n)
  pmm_eq : s.pmm = s₀.pmm.afterAllocs (framesTaken s₀ vpn n)

theorem madePages_zero {s : Machine} (h : s.WellFormed) (vpn : Nat) (attr : Word)
    : MadePages s vpn 0 attr s where
  wellFormed := h
  dir_kept := fun _ _ _ => rfl
  dir_iff := by simp
  fresh := by simp
  entry_made := by simp
  entry_kept := fun _ _ _ => rfl
  stray := fun _ => Iff.rfl
  supplies := trivial
  pmm_eq := rfl

section MadePages

variable {s₀ s s' : Machine} {vpn n : Nat} {attr : Word}

theorem MadePages.needsTable_iff (h : MadePages s₀ vpn n attr s) (hend : vpn + n < vpnEnd)
    : NeedsTable s₀ vpn n ↔ s.dir ((vpn + n) / 1024) = 0 := by
  unfold vpnEnd at hend
  have hdir := h.dir_iff ((vpn + n) / 1024) (by omega)
  have hfirst : (∃ m, m < n ∧ (vpn + m) / 1024 = (vpn + n) / 1024) ↔ ¬(n = 0 ∨ (vpn + n) % 1024 = 0) := by
    constructor
    . rintro ⟨m, hm, htable⟩
      omega
    . intro hother
      exact ⟨n - 1, by omega, by omega⟩
  rw [hfirst] at hdir
  unfold NeedsTable
  constructor
  . rintro ⟨hzero, hnew⟩
    by_contra hne
    cases hdir.mp hne with
    | inl hold => exact hold hzero
    | inr hseen => exact hseen hnew
  . intro hzero
    constructor
    . by_contra hold
      exact hdir.mpr (Or.inl hold) hzero
    . by_contra hseen
      exact hdir.mpr (Or.inr hseen) hzero

theorem MadePages.occupied (h : MadePages s₀ vpn n attr s) {frame : Nat}
    (hoccupied : s₀.pmm.occupied frame = true)
    : s.pmm.occupied frame = true := by
  rw [h.pmm_eq]
  exact s₀.pmm.occupied_afterAllocs _ hoccupied

theorem MadePages.maxPg_eq (h : MadePages s₀ vpn n attr s) : s.pmm.maxPg = s₀.pmm.maxPg := by
  rw [h.pmm_eq]
  exact s₀.pmm.maxPg_afterAllocs _

/--
The next frame was free from the start.
-/
theorem MadePages.nextFrame_free (h : MadePages s₀ vpn n attr s) (hfound : (pmmAllocPage s.pmm).1 ≠ 0)
    : s₀.pmm.occupied s.nextFrame = false := by
  rw [← Bool.not_eq_true]
  intro hoccupied
  have := h.occupied hoccupied
  rw [show s.pmm.occupied s.nextFrame = false from (pmmAllocPage_took s.pmm hfound).free] at this
  contradiction

/--
The next frame can be freed again.
-/
theorem MadePages.nextFrame_bounds (h : MadePages s₀ vpn n attr s) (hfound : (pmmAllocPage s.pmm).1 ≠ 0)
    (hbelow : s₀.FreeBelow)
    : s.nextFrame ≠ 0 ∧ s.nextFrame < s₀.pmm.maxPg := by
  have htook := pmmAllocPage_took s.pmm hfound
  exact ⟨Nat.pos_iff_ne_zero.mp htook.pos, hbelow _ htook.lt (h.nextFrame_free hfound)⟩

/--
One more page is mapped.
-/
theorem MadePages.succ (h : MadePages s₀ vpn n attr s) (hend : vpn + n < vpnEnd)
    (hattr : isCached attr = true) (hnext : MapNext s (vpn + n) attr (.ok true s'))
    : MadePages s₀ vpn (n + 1) attr s' := by
  cases hnext with
  | made _ hfound hcases =>
    have hwf := h.wellFormed
    have hstray : s.allocated.Stray s.nextFrame := (hwf.toOwned.stray_allocated hfound _).mpr (Or.inr rfl)
    have hmade := hcases.madeEntry hwf.allocated.tabled hend hattr
    obtain ⟨hwf', hstrays⟩ := hcases.wellFormed hwf.allocated hend hattr hstray
    obtain ⟨hsupplies, hpmm⟩ := hcases.pmm_eq
    have hneeds := h.needsTable_iff hend
    have hfree := h.nextFrame_free hfound
    have hself : s'.dir ((vpn + n) / 1024) ≠ 0 := by
      by_cases hzero : s.dir ((vpn + n) / 1024) = 0
      . rw [hmade.dir_self hzero]
        exact newTable_ne_zero hattr
      . rw [hmade.dir_kept _ (by unfold vpnEnd at hend; omega) hzero]
        exact hzero
    have hdir : ∀ i, i < 1024 → s.dir i ≠ 0 → s'.dir i = s.dir i := hmade.dir_kept
    -- the frames for this page, and for its table
    have hcount :
        (if NeedsTable s₀ vpn n then 2 else 1) = 1 + (if s.dir ((vpn + n) / 1024) = 0 then 1 else 0) := by
      by_cases hzero : s.dir ((vpn + n) / 1024) = 0
      . rw [if_pos (hneeds.mpr hzero), if_pos hzero]
      . rw [if_neg (mt hneeds.mp hzero), if_neg hzero]
    constructor
    . exact hwf'
    . intro i hi hne
      have hkept := h.dir_kept i hi hne
      rw [hdir i hi (by rw [hkept]; exact hne), hkept]
    . intro i hi
      have hold := h.dir_iff i hi
      by_cases hself' : i = (vpn + n) / 1024
      . subst hself'
        exact ⟨fun _ => Or.inr ⟨n, by omega, rfl⟩, fun _ => hself⟩
      . rw [hmade.dir_other i hi hself', dir_allocated, hold]
        constructor
        . rintro (hdir | ⟨m, hm, htable⟩)
          . exact Or.inl hdir
          . exact Or.inr ⟨m, by omega, htable⟩
        . rintro (hdir | ⟨m, hm, htable⟩)
          . exact Or.inl hdir
          . have hmn : m ≠ n := by
              intro heq
              rw [heq] at htable
              exact hself' htable.symm
            exact Or.inr ⟨m, by omega, htable⟩
    . intro m hm
      by_cases hmn : m = n
      . subst hmn
        have hempty : s.entry (vpn + m) = 0 := by
          cases hcases with
          | made _ hempty => exact hempty
          | madeTable hzero _ => exact entry_of_absent hzero
          | replaced _ hforced => contradiction
        rw [← h.entry_kept (vpn + m) hend (by omega)]
        exact hempty
      . exact h.fresh m (by omega)
    . intro m hm
      by_cases hmn : m = n
      . subst hmn
        exact ⟨_, hmade.entry_self, h.nextFrame_bounds hfound⟩
      . obtain ⟨pa, hentry, hframe⟩ := h.entry_made m (by omega)
        refine ⟨pa, ?_, hframe⟩
        rw [hmade.entry_other (vpn + m) (by omega) (by omega)]
        exact hentry
    . intro v hv hout
      rw [hmade.entry_other v hv (by omega)]
      exact h.entry_kept v hv (by omega)
    . intro frame
      have hfresh : s₀.Stray frame → frame ≠ s.nextFrame := by
        rintro ⟨hoccupied, _⟩ heq
        rw [heq, hfree] at hoccupied
        contradiction
      have hnew : s'.Stray frame ↔ s.allocated.Stray frame ∧ frame ≠ s.nextFrame := hstrays frame
      rw [hnew, hwf.toOwned.stray_allocated hfound frame, h.stray frame]
      constructor
      . rintro ⟨hold | heq, hne⟩
        . exact hold
        . exact absurd heq hne
      . intro hold
        exact ⟨Or.inl hold, hfresh hold⟩
    . rw [framesTaken, hcount, Pmm.supplies_add, ← h.pmm_eq, Nat.add_comm]
      exact ⟨h.supplies, hfound, hsupplies⟩
    . rw [framesTaken, hcount, Pmm.afterAllocs_add, ← h.pmm_eq, Nat.add_comm]
      exact hpmm

end MadePages

/--
A page that failed changes neither the directory nor the page tables. Its frame is lost, if there was one.
-/
structure FailedNext (s s' : Machine) : Prop where
  wellFormed : s'.WellFormed
  dir_eq : ∀ i, s'.dir i = s.dir i
  entry_eq : ∀ v, s'.entry v = s.entry v
  maxPg_eq : s'.pmm.maxPg = s.pmm.maxPg
  stray : ∀ frame, s'.Stray frame ↔ s.Stray frame ∨ ((pmmAllocPage s.pmm).1 ≠ 0 ∧ frame = s.nextFrame)

theorem MapNext.failed {s s' : Machine} (h : s.WellFormed) {vpn : Nat} {attr : Word}
    (hnext : MapNext s vpn attr (.ok false s'))
    : FailedNext s s' := by
  cases hnext with
  | noFrame hnull =>
    have hsame := sameFrames_allocated hnull
    constructor
    . exact hsame.wellFormed h
    . exact hsame.dir_eq
    . exact hsame.entry_eq
    . exact hsame.maxPg
    . intro frame
      rw [hsame.stray_iff]
      exact ⟨Or.inl, fun hor => hor.resolve_right (fun hand => hand.1 hnull)⟩
  | refused _ hfound hcases =>
    obtain ⟨hsame, _⟩ := hcases.refused
    constructor
    . exact hsame.wellFormed h.allocated
    . exact hsame.dir_eq
    . exact hsame.entry_eq
    . exact hsame.maxPg.trans s.pmm.maxPg_pmmAllocPage
    . intro frame
      rw [hsame.stray_iff, h.toOwned.stray_allocated hfound]
      exact ⟨fun hor => hor.imp_right (fun heq => ⟨hfound, heq⟩), fun hor => hor.imp_right And.right⟩

/--
An entry with a frame that `pmm_free_page` takes back.
-/
structure Freeable (s : Machine) (vpn : Nat) : Prop where
  pos : frameOf (s.entry vpn) ≠ 0
  lt : frameOf (s.entry vpn) < s.pmm.maxPg

/--
From `s` to `s'`, the `n` pages from `vpn` on were unmapped, and their frames were freed if possible.
-/
structure Unmapped (s : Machine) (vpn n : Nat) (s' : Machine) : Prop where
  wellFormed : s'.WellFormed
  dir_eq : ∀ i, s'.dir i = s.dir i
  entry_eq : ∀ v, v < vpnEnd → s'.entry v = if vpn ≤ v ∧ v < vpn + n then 0 else s.entry v
  maxPg_eq : s'.pmm.maxPg = s.pmm.maxPg
  stray : (∀ m, m < n → Freeable s (vpn + m)) → ∀ frame, s'.Stray frame ↔ s.Stray frame

theorem maxPg_pmmFreePage (pmm : Pmm) (page : Word) : (pmmFreePage pmm page).2.maxPg = pmm.maxPg := by
  unfold pmmFreePage
  dsimp only
  split
  . rfl
  . rfl

theorem maxPg_releasedEntry (s : Machine) (entry : Word) : (s.releasedEntry entry).pmm.maxPg = s.pmm.maxPg := by
  unfold releasedEntry
  split
  . rw [pmm_released, maxPg_pmmFreePage]
  . rfl

theorem vmmUnmapPage_unmapped {s : Machine} (h : s.WellFormed) {va : Word} (hva : va.toNat / 4096 < vpnEnd)
    (hcached : isCached (s.entry (va.toNat / 4096)) = true)
    : ∃ s', vmmUnmapPage va s = .ok () s' ∧ Unmapped s (va.toNat / 4096) 1 s' := by
  have hslot := page_lt_vpnEnd_iff.mp hva
  have hne : s.dir (l1Index va) ≠ 0 := by
    intro hzero
    rw [l1Index_eq, ← Nat.div_div_eq_div_mul va.toNat 4096 1024] at hzero
    rw [entry_of_absent hzero, isCached_zero] at hcached
    contradiction
  have hentry : s.entry (va.toNat / 4096) = s.table (l1Index va) (l2Index va) := by
    rw [entry_va]
    unfold pte
    rw [if_neg hne]
  obtain ⟨s', hresult, hwf, _, hpte⟩ := vmmUnmapPage_pte h va hslot
  refine ⟨s', hresult, ?_⟩
  have hcases := vmmUnmapPage_cases h.toSelfMapped va
  rw [hresult] at hcases
  cases hcases with
  | guarded hguard => omega
  | absent _ hzero => exact absurd hzero hne
  | cleared _ hpresent =>
    have hmem := s.releasedEntry_mem (s.table (l1Index va) (l2Index va))
    have hcr3 := s.releasedEntry_cr3 (s.table (l1Index va) (l2Index va))
    have hrec : (s.releasedEntry (s.table (l1Index va) (l2Index va))).Recursive := h.recursive.congr hmem hcr3
    rw [hentry] at hcached
    constructor
    . exact hwf
    . intro i
      rw [hrec.dir_setTable _ _ 0 hslot (by rw [dir_congr hmem hcr3]; exact hne), dir_congr hmem hcr3]
    . intro v hv
      have hindex : va.toNat / 4096 ≤ v ∧ v < va.toNat / 4096 + 1 ↔ v / 1024 = l1Index va
        ∧ v % 1024 = l2Index va := by
        rw [eq_of_index]
        omega
      rw [if_congr hindex rfl rfl]
      unfold vpnEnd at hv
      exact hpte _ _ (by omega)
    . rw [pmm_setTable, maxPg_releasedEntry]
    . intro hfreeable
      obtain ⟨hpos, hlt⟩ := hfreeable 0 (by omega)
      rw [Nat.add_zero, hentry] at hpos hlt
      exact h.stray_clearTable hslot (l2Index_lt va) hpresent hcached hpos hlt

theorem vmmUnmapPages_unmapped {s : Machine} (h : s.WellFormed) (va : Word) (n : Nat)
    (hend : va.toNat / 4096 + n ≤ vpnEnd)
    (hcached : ∀ m, m < n → isCached (s.entry (va.toNat / 4096 + m)) = true)
    : ∃ s', vmmUnmapPages va n s = .ok () s' ∧ Unmapped s (va.toNat / 4096) n s' := by
  induction n generalizing s va with
  | zero =>
    refine ⟨s, rfl, h, fun _ => rfl, ?_, rfl, fun _ _ => Iff.rfl⟩
    intro v _
    rw [if_neg (by omega)]
  | succ n ih =>
    obtain ⟨s₁, hunmap, hone⟩ := vmmUnmapPage_unmapped h (by omega) (hcached 0 (by omega))
    have hnext := next_page (show va.toNat / 4096 < vpnEnd by omega)
    have hrest :
        ∀ m, m < n → s₁.entry ((va + 0x1000).toNat / 4096 + m) = s.entry (va.toNat / 4096 + (m + 1)) := by
      intro m hm
      rw [hnext, Nat.add_assoc, Nat.add_comm 1 m, hone.entry_eq _ (by omega), if_neg (by omega)]
    obtain ⟨s', hunmaps, hmany⟩ := ih hone.wellFormed (va + 0x1000) (by omega)
      (fun m hm => by rw [hrest m hm]; exact hcached (m + 1) (by omega))
    unfold vmmUnmapPages
    rw [bind_ok _ hunmap]
    refine ⟨s', hunmaps, hmany.wellFormed, ?_, ?_, ?_, ?_⟩
    . intro i
      rw [hmany.dir_eq, hone.dir_eq]
    . intro v hv
      rw [hmany.entry_eq v hv, hone.entry_eq v hv, hnext]
      split
      . rw [if_pos (by omega)]
      . split
        . rw [if_pos (by omega)]
        . rw [if_neg (by omega)]
    . rw [hmany.maxPg_eq, hone.maxPg_eq]
    . intro hfreeable frame
      have hfirst : ∀ m, m < 1 → Freeable s (va.toNat / 4096 + m) := fun m hm => hfreeable m (by omega)
      have hothers : ∀ m, m < n → Freeable s₁ ((va + 0x1000).toNat / 4096 + m) := by
        intro m hm
        obtain ⟨hpos, hlt⟩ := hfreeable (m + 1) (by omega)
        rw [← hrest m hm] at hpos hlt
        rw [← hone.maxPg_eq] at hlt
        exact ⟨hpos, hlt⟩
      rw [hmany.stray hothers, hone.stray hfirst]

/--
The ways in which `vmm_alloc_pages` ends.
-/
inductive AllocPages (s₀ : Machine) (vpn count : Nat)
    (attr : Word) : EStateM.Result PageFault Machine Bool → Prop
  | done (s : Machine) (hmade : MadePages s₀ vpn count attr s) : AllocPages s₀ vpn count attr (.ok true s)
  | failed (n : Nat) (hn : n < count) (s s₁ s' : Machine) (hmade : MadePages s₀ vpn n attr s)
      (hnext : MapNext s (vpn + n) attr (.ok false s₁)) (hunmapped : Unmapped s₁ vpn n s')
      : AllocPages s₀ vpn count attr (.ok false s')

section Failed

variable {s₀ s s₁ s₂ : Machine} {vpn n : Nat} {attr : Word}

theorem MadePages.cached (h : MadePages s₀ vpn n attr s) (hattr : isCached attr = true) {m : Nat} (hm : m < n)
    : isCached (s.entry (vpn + m)) = true := by
  obtain ⟨pa, hmade, _⟩ := h.entry_made m hm
  rw [hmade, isCached_newL2Entry, hattr]

theorem MadePages.freeable (h : MadePages s₀ vpn n attr s) (hbelow : s₀.FreeBelow)
    (hfailed : FailedNext s s₁) {m : Nat} (hm : m < n)
    : Freeable s₁ (vpn + m) := by
  obtain ⟨pa, hmade, hbounds⟩ := h.entry_made m hm
  obtain ⟨hpos, hlt⟩ := hbounds hbelow
  constructor
  . rw [hfailed.entry_eq, hmade, frameOf_newL2Entry]
    exact hpos
  . rw [hfailed.entry_eq, hmade, frameOf_newL2Entry, hfailed.maxPg_eq, h.maxPg_eq]
    exact hlt

/--
After a page has failed and the pages before it were unmapped, every page is mapped as it was.
-/
theorem MadePages.entry_rolledBack (h : MadePages s₀ vpn n attr s) (hfailed : FailedNext s s₁)
    (hunmapped : Unmapped s₁ vpn n s₂) {v : Nat} (hv : v < vpnEnd)
    : s₂.entry v = s₀.entry v := by
  rw [hunmapped.entry_eq v hv]
  split
  . next hin =>
    have hfresh := h.fresh (v - vpn) (by omega)
    rw [show vpn + (v - vpn) = v by omega] at hfresh
    exact hfresh.symm
  . next hout =>
    rw [hfailed.entry_eq]
    exact h.entry_kept v hv hout

end Failed

theorem go_cases {s₀ s : Machine} {va va_ attr : Word} {i : Nat} (hattr : isCached attr = true)
    (hmade : MadePages s₀ (va.toNat / 4096) i attr s) (hva : va_.toNat / 4096 = va.toNat / 4096 + i)
    (count : Nat) (hend : va.toNat / 4096 + (i + count) ≤ vpnEnd)
    : AllocPages s₀ (va.toNat / 4096) (i + count) attr (vmmAllocPages.go va attr i va_ count s) := by
  induction count generalizing s i va_ with
  | zero => exact .done s hmade
  | succ count ih =>
    have hnext := mapNext_cases hmade.wellFormed.tabled (show va_.toNat / 4096 < vpnEnd by omega) hattr
    rw [hva] at hnext
    unfold vmmAllocPages.go
    cases hresult : vmmAllocPages.mapNext va_ attr s with
    | error e s₁ =>
      rw [hresult] at hnext
      cases hnext
    | ok made s₁ =>
      rw [hresult] at hnext
      rw [bind_ok _ hresult]
      cases made with
      | true =>
        have hsucc : (va_ + 0x1000).toNat / 4096 = va.toNat / 4096 + (i + 1) := by
          rw [next_page (by omega), hva, Nat.add_assoc]
        have hrest := ih (hmade.succ (by omega) hattr hnext) hsucc (by omega)
        rw [Nat.add_right_comm] at hrest
        exact hrest
      | false =>
        have hfailed := hnext.failed hmade.wellFormed
        obtain ⟨s', hunmap, hunmapped⟩ := vmmUnmapPages_unmapped hfailed.wellFormed va i (by omega)
          (fun m hm => by rw [hfailed.entry_eq]; exact hmade.cached hattr hm)
        simp only [Bool.not_false, ↓reduceIte]
        rw [bind_ok _ hunmap]
        exact .failed i (by omega) s s₁ s' hmade hnext hunmapped

theorem vmmAllocPages_cases {s : Machine} (h : s.WellFormed) (va sz : Word) {attr : Word}
    (hend : va.toNat / 4096 + sz.toNat / 4096 ≤ vpnEnd) (hattr : isCached attr = true)
    : AllocPages s (va.toNat / 4096) (sz.toNat / 4096) attr (vmmAllocPages va sz attr s) := by
  have hcount : (sz >>> 12).toNat = sz.toNat / 4096 := by
    rw [BitVec.toNat_ushiftRight, Nat.shiftRight_eq_div_pow]
  have hgo := go_cases hattr (madePages_zero h (va.toNat / 4096) attr) rfl (sz.toNat / 4096)
    (by rw [Nat.zero_add]; exact hend)
  unfold vmmAllocPages
  rw [hcount]
  rwa [Nat.zero_add] at hgo

theorem free_oneFrameLeft {frame : Nat} (hfree : oneFrameLeft.pmm.occupied frame = false) : frame = 7 := by
  have hbyte : ∀ j, j < 8 → (0xFE#8).getMsbD j = false → j = 7 := by decide
  unfold Pmm.occupied Bitmap.test oneFrameLeft at hfree
  dsimp only at hfree
  by_cases hgroup : frame / 8 = 0
  . rw [if_pos hgroup] at hfree
    have := hbyte (frame % 8) (by omega) hfree
    omega
  . rw [if_neg hgroup, Bitmap.getMsbD_allOnes_byte (by omega)] at hfree
    contradiction

theorem supplies_oneFrameLeft : oneFrameLeft.pmm.Supplies 1 := by
  have hpool : oneFrameLeft.pmm.Pool 7 := {
    le := by decide
    byteEnd_le := by decide
    taken := by
      have htaken :
          ∀ ppn, ppn < 7 → oneFrameLeft.pmm.pgLookupPtr ≤ ppn → oneFrameLeft.pmm.occupied ppn = true := by
        decide
      exact fun ppn hge hlt => htaken ppn hlt hge
    free := by
      have hfree : ∀ ppn, ppn < 8 → 7 ≤ ppn → oneFrameLeft.pmm.occupied ppn = false := by decide
      exact fun ppn hge hlt => hfree ppn hlt hge
  }
  exact hpool.supplies 1 (by decide)

theorem not_supplies_oneFrameLeft : ¬oneFrameLeft.pmm.Supplies 2 := by
  rintro ⟨hfirst, hsecond, _⟩
  have htook := pmmAllocPage_took _ hfirst
  have htook' := pmmAllocPage_took _ hsecond
  have hfree := htook'.free
  unfold Pmm.occupied at hfree
  rw [htook.bitmap, Bitmap.test_set, Bool.or_eq_false_iff, decide_eq_false_iff_not] at hfree
  have heq := free_oneFrameLeft hfree.2
  rw [free_oneFrameLeft htook.free] at hfree
  exact hfree.1 heq

theorem supplies_bootMachine : bootMachine.pmm.Supplies 6 := by
  have hpool : bootMachine.pmm.Pool 2 := {
    le := by decide
    byteEnd_le := by decide
    taken := by
      intro ppn hge hlt
      have hppn : ppn = 1 := Nat.le_antisymm (Nat.le_of_lt_succ hlt) hge
      subst hppn
      decide
    free := by
      have hfree : ∀ ppn, ppn < 8 → 2 ≤ ppn → bootMachine.pmm.occupied ppn = false := by decide
      exact fun ppn hge hlt => hfree ppn hlt hge
  }
  exact hpool.supplies 6 (by decide)

end AwaOS
