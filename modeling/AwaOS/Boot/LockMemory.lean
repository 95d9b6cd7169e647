import AwaOS.Boot.Available
import AwaOS.Vmm.Rights

/-!
`lock_reserved_memory` and `unlock_reserved_memory` of `kernel/k_init.c`. Both go over the same pages, one maps them
and the other unmaps them.
-/

namespace AwaOS

open Machine

/--
`CEIL(v, PG_SIZE_BITS)`
-/
def ceilPages (v : Word) : Word :=
  (v + (1 : Word) <<< 12 - 1) >>> 12

namespace reservedMemory

/--
The loop over the pages of an entry, from page `j` on, with `count` pages left.
-/
def eachPage (visit : Word → KernelM Unit) (pa j : Word) : Nat → KernelM Unit
  | 0 => pure ()
  | count + 1 => do
    visit (pa + j <<< 12)
    eachPage visit pa (j + 1) count

/--
The loop over the memory map.
-/
def eachEntry (visit : Word → KernelM Unit) : List MultibootMmapEntry → KernelM Unit
  | [] => pure ()
  | mmap :: mmaps => do
    if mmap.type ≠ multibootMemoryAvailable then
      let pa := pgAlign mmap.addrLow
      let pgNum := ceilPages mmap.lenLow
      eachPage visit pa 0 pgNum.toNat
    eachEntry visit mmaps

end reservedMemory

def lockReservedMemory (mmaps : List MultibootMmapEntry) : KernelM Unit :=
  reservedMemory.eachEntry (fun page => vmmSetMapping page page pgPremR) mmaps

def unlockReservedMemory (mmaps : List MultibootMmapEntry) : KernelM Unit :=
  reservedMemory.eachEntry vmmUnmapPage mmaps

namespace reservedMemory

/--
The addresses that `eachPage` visits.
-/
def pagesFrom (pa j : Word) : Nat → List Word
  | 0 => []
  | count + 1 => (pa + j <<< 12) :: pagesFrom pa (j + 1) count

/--
The addresses that `eachEntry` visits.
-/
def pages : List MultibootMmapEntry → List Word
  | [] => []
  | mmap :: mmaps =>
    (if mmap.type ≠ multibootMemoryAvailable then
      pagesFrom (pgAlign mmap.addrLow) 0 (ceilPages mmap.lenLow).toNat
    else
      [])
      ++ pages mmaps

def visitEach (visit : Word → KernelM Unit) : List Word → KernelM Unit
  | [] => pure ()
  | page :: pages => do
    visit page
    visitEach visit pages

section Visit

variable {visit : Word → KernelM Unit}

theorem visitEach_append (pages pages' : List Word)
    : visitEach visit (pages ++ pages') = (do visitEach visit pages; visitEach visit pages') := by
  induction pages with
  | nil => rfl
  | cons page pages ih =>
    rw [List.cons_append, visitEach, visitEach, ih]
    funext s
    cases hpage : visit page s with
    | ok _ s' =>
      rw [bind_ok _ hpage]
      cases hpages : visitEach visit pages s' with
      | ok _ s'' =>
        have hboth : (do visit page; visitEach visit pages : KernelM Unit) s = .ok () s'' := by
          rw [bind_ok _ hpage, hpages]
        rw [bind_ok _ hpages, bind_ok _ hboth]
      | error e s'' =>
        have hboth : (do visit page; visitEach visit pages : KernelM Unit) s = .error e s'' := by
          rw [bind_ok _ hpage, hpages]
        rw [bind_error _ hpages, bind_error _ hboth]
    | error e s' =>
      have hboth : (do visit page; visitEach visit pages : KernelM Unit) s = .error e s' := by
        rw [bind_error _ hpage]
      rw [bind_error _ hpage, bind_error _ hboth]

theorem eachPage_eq (pa j : Word) (count : Nat)
    : eachPage visit pa j count = visitEach visit (pagesFrom pa j count) := by
  induction count generalizing j with
  | zero => rfl
  | succ count ih => rw [eachPage, pagesFrom, visitEach, ih]

/--
The loops visit the pages in this order.
-/
theorem eachEntry_eq (mmaps : List MultibootMmapEntry)
    : eachEntry visit mmaps = visitEach visit (pages mmaps) := by
  induction mmaps with
  | nil => rfl
  | cons mmap mmaps ih =>
    rw [eachEntry, pages, visitEach_append, ih]
    split
    . dsimp only
      rw [eachPage_eq]
    . rfl

end Visit

/--
The numbers of the pages.
-/
def numbers (pages : List Word) : List Nat :=
  pages.map (·.toNat / 4096)

theorem numbers_cons (page : Word) (pages : List Word)
    : numbers (page :: pages) = page.toNat / 4096 :: numbers pages := by
  rfl

theorem mem_pagesFrom {pa j page : Word} {count : Nat}
    : page ∈ pagesFrom pa j count ↔ ∃ i, i < count ∧ page = pa + (j + BitVec.ofNat 32 i) <<< 12 := by
  induction count generalizing j with
  | zero => simp [pagesFrom]
  | succ count ih =>
    have hnext : ∀ i, j + 1 + BitVec.ofNat 32 i = j + BitVec.ofNat 32 (i + 1) := by
      intro i
      rw [Nat.add_comm i 1, BitVec.ofNat_add, BitVec.add_assoc]
      rfl
    rw [pagesFrom, List.mem_cons, ih]
    constructor
    . intro h
      cases h with
      | inl heq =>
        refine ⟨0, Nat.zero_lt_succ _, ?_⟩
        rw [BitVec.add_zero]
        exact heq
      | inr h =>
        obtain ⟨i, hi, heq⟩ := h
        rw [hnext] at heq
        exact ⟨i + 1, Nat.succ_lt_succ hi, heq⟩
    . intro h
      obtain ⟨i, hi, heq⟩ := h
      cases i with
      | zero =>
        left
        rw [BitVec.add_zero] at heq
        exact heq
      | succ i =>
        right
        refine ⟨i, Nat.lt_of_succ_lt_succ hi, ?_⟩
        rw [hnext]
        exact heq

theorem mem_pages {page : Word} {mmaps : List MultibootMmapEntry}
    : page ∈ pages mmaps
        ↔
      ∃ e ∈ mmaps, e.type ≠ multibootMemoryAvailable
        ∧ page ∈ pagesFrom (pgAlign e.addrLow) 0 (ceilPages e.lenLow).toNat := by
  induction mmaps with
  | nil => simp [pages]
  | cons e mmaps ih =>
    rw [pages, List.mem_append, ih]
    simp only [List.mem_cons, exists_eq_or_imp]
    apply or_congr_left
    split
    . next hreserved => exact (and_iff_right hreserved).symm
    . next havailable => simp [havailable]

end reservedMemory

open reservedMemory

/--
The entry that `lock_reserved_memory` makes for a page.
-/
def lockedEntry (v : Nat) : Word :=
  newL2Entry pgPremR (BitVec.ofNat 32 (4096 * v))

section LockedEntry

theorem newL2Entry_page (page : Word) : newL2Entry pgPremR page = lockedEntry (page.toNat / 4096) := by
  have hlt := page.isLt
  have halign : pgAlign page = pgAlign (BitVec.ofNat 32 (4096 * (page.toNat / 4096))) := by
    apply BitVec.eq_of_toNat_eq
    rw [toNat_pgAlign, toNat_pgAlign, BitVec.toNat_ofNat]
    omega
  unfold lockedEntry newL2Entry
  rw [halign]

theorem isCached_lockedEntry (v : Nat) : isCached (lockedEntry v) = true := by
  unfold lockedEntry
  rw [isCached_newL2Entry]
  rfl

theorem lockedEntry_ne_zero (v : Nat) : lockedEntry v ≠ 0 :=
  ne_zero_of_isCached (isCached_lockedEntry v)

theorem frameOf_lockedEntry {v : Nat} (hv : v < vpnEnd) : frameOf (lockedEntry v) = v := by
  unfold vpnEnd at hv
  unfold lockedEntry
  rw [frameOf_newL2Entry, BitVec.toNat_ushiftRight, BitVec.toNat_ofNat, Nat.shiftRight_eq_div_pow]
  omega

end LockedEntry

section Tabled

variable {s s' : Machine}

theorem SameFrames.tabled (hsame : SameFrames s s') (h : s.Tabled) : s'.Tabled where
  toRecursive := h.toRecursive.congr hsame.mem hsame.cr3
  occupied := by
    intro i hi
    rw [hsame.dir_eq, hsame.occupied]
    exact h.occupied i hi
  tables := by
    intro i hi
    rw [hsame.dir_eq]
    exact h.tables i hi

theorem MapInternal.occupied {vpn : Nat} {pa attr : Word}
    (hcases : MapInternal s vpn pa attr false (.ok true s')) {frame : Nat}
    (hoccupied : s.pmm.occupied frame = true)
    : s'.pmm.occupied frame = true := by
  rw [hcases.pmm_eq.2]
  exact s.pmm.occupied_afterAllocs _ hoccupied

theorem MapInternal.maxPg_eq {vpn : Nat} {pa attr : Word}
    (hcases : MapInternal s vpn pa attr false (.ok true s'))
    : s'.pmm.maxPg = s.pmm.maxPg := by
  rw [hcases.pmm_eq.2]
  exact s.pmm.maxPg_afterAllocs _

theorem MapInternal.empty {vpn : Nat} {pa attr : Word}
    (hcases : MapInternal s vpn pa attr false (.ok true s'))
    : s.entry vpn = 0 := by
  cases hcases with
  | made _ hempty => exact hempty
  | madeTable hzero _ => exact entry_of_absent hzero
  | replaced _ hforced => contradiction

end Tabled

/--
The ways in which a page is locked.
-/
inductive LockPage (s : Machine) (page : Word) : EStateM.Result PageFault Machine Unit → Prop
  | guarded (hslot : ¬page.toNat / 4096 < vpnEnd) : LockPage s page (.ok () s)
  | internal (hslot : page.toNat / 4096 < vpnEnd) (made : Bool) (s' : Machine)
      (hcases : MapInternal s (page.toNat / 4096) page pgPremR false (.ok made s'))
      : LockPage s page (.ok () s')

theorem lockPage_cases {s : Machine} (h : s.Tabled) (page : Word)
    : ∃ s', vmmSetMapping page page pgPremR s = .ok () s' ∧ LockPage s page (.ok () s') := by
  have hl1 := l1Index_lt page
  unfold vmmSetMapping
  by_cases hslot : page.toNat / 4096 < vpnEnd
  . have hbelow := page_lt_vpnEnd_iff.mp hslot
    obtain ⟨made, s', hresult, hcases⟩ := vmmMapInternal_returns h hslot page pgPremR (by decide) false
    refine ⟨s', ?_, .internal hslot made s' hcases⟩
    rw [if_neg (by omega), bind_ok _ hresult]
    rfl
  . have hlast : l1Index page = 1023 := by
      by_contra hne
      exact hslot (page_lt_vpnEnd_iff.mpr (by omega))
    refine ⟨s, ?_, .guarded hslot⟩
    rw [if_pos hlast]
    rfl

/--
From `s` to `s'`, these pages were locked. A page stays unmapped if there is no frame for its table.
-/
structure Locked (s : Machine) (pages : List Word) (s' : Machine) : Prop where
  tabled : s'.Tabled
  dir_kept : ∀ i, i < 1024 → s.dir i ≠ 0 → s'.dir i = s.dir i
  entry_kept : ∀ v, v < vpnEnd → s.entry v ≠ 0 → s'.entry v = s.entry v
  entry_other : ∀ v, v < vpnEnd → v ∉ numbers pages → s'.entry v = s.entry v
  entry_locked : ∀ v, v < vpnEnd → s'.entry v = s.entry v ∨ s'.entry v = lockedEntry v
  entry_made : ∀ v, v < vpnEnd → v ∈ numbers pages → s.dir (v / 1024) ≠ 0 → s'.entry v ≠ 0
  occupied : ∀ frame, s.pmm.occupied frame = true → s'.pmm.occupied frame = true
  maxPg_eq : s'.pmm.maxPg = s.pmm.maxPg

/--
A run of the loop: these pages are locked one after the other.
-/
inductive LockRun : Machine → List Word → Machine → Prop
  | nil (s : Machine) : LockRun s [] s
  | cons {s s₁ s' : Machine} {page : Word} {pages : List Word}
      (hresult : vmmSetMapping page page pgPremR s = .ok () s₁) (hcases : LockPage s page (.ok () s₁))
      (hrest : LockRun s₁ pages s')
      : LockRun s (page :: pages) s'

section Locked

variable {s s₁ s' : Machine} {page : Word} {pages : List Word}

theorem locked_nil (h : s.Tabled) : Locked s [] s where
  tabled := h
  dir_kept := fun _ _ _ => rfl
  entry_kept := fun _ _ _ => rfl
  entry_other := fun _ _ _ => rfl
  entry_locked := fun _ _ => Or.inl rfl
  entry_made := by simp [numbers]
  occupied := fun _ h => h
  maxPg_eq := rfl

theorem LockPage.locked (h : s.Tabled) (hcases : LockPage s page (.ok () s')) : Locked s [page] s' := by
  have hmem : ∀ v, v ∈ numbers [page] ↔ v = page.toNat / 4096 := fun v => List.mem_singleton
  cases hcases with
  | guarded hslot =>
    constructor
    . exact h
    . exact fun _ _ _ => rfl
    . exact fun _ _ _ => rfl
    . exact fun _ _ _ => rfl
    . exact fun _ _ => Or.inl rfl
    . intro v hv hpage
      rw [(hmem v).mp hpage] at hv
      exact absurd hv hslot
    . exact fun _ hframe => hframe
    . rfl
  | internal hslot made _ hcases =>
    cases made with
    | false =>
      obtain ⟨hsame, hreason⟩ := hcases.refused
      constructor
      . exact hsame.tabled h
      . exact fun i _ _ => hsame.dir_eq i
      . exact fun v _ _ => hsame.entry_eq v
      . exact fun v _ _ => hsame.entry_eq v
      . exact fun v _ => Or.inl (hsame.entry_eq v)
      . intro v _ hpage hdir
        rw [(hmem v).mp hpage] at hdir ⊢
        rw [hsame.entry_eq]
        exact hreason.resolve_right (fun hand => hdir hand.1)
      . intro frame hframe
        rw [hsame.occupied]
        exact hframe
      . exact hsame.maxPg
    | true =>
      have hmade := hcases.madeEntry h hslot (by decide)
      have hself := hmade.entry_self
      rw [newL2Entry_page] at hself
      constructor
      . exact hcases.tabled h hslot (by decide) (fun hforced => by contradiction)
      . exact hmade.dir_kept
      . intro v hv hne
        apply hmade.entry_other v hv
        intro heq
        rw [heq] at hne
        exact hne hcases.empty
      . intro v hv hother
        exact hmade.entry_other v hv (fun heq => hother ((hmem v).mpr heq))
      . intro v hv
        by_cases heq : v = page.toNat / 4096
        . right
          rw [heq]
          exact hself
        . left
          exact hmade.entry_other v hv heq
      . intro v _ hpage _
        rw [(hmem v).mp hpage, hself]
        exact lockedEntry_ne_zero _
      . exact fun _ hframe => hcases.occupied hframe
      . exact hcases.maxPg_eq

theorem Locked.cons (hone : Locked s [page] s₁) (hrest : Locked s₁ pages s') : Locked s (page :: pages) s' := by
  have hkept : ∀ v, v < vpnEnd → s₁.entry v ≠ 0 → s'.entry v ≠ 0 := by
    intro v hv hne
    rw [hrest.entry_kept v hv hne]
    exact hne
  constructor
  . exact hrest.tabled
  . intro i hi hne
    have hfirst := hone.dir_kept i hi hne
    rw [hrest.dir_kept i hi (by rw [hfirst]; exact hne), hfirst]
  . intro v hv hne
    have hfirst := hone.entry_kept v hv hne
    rw [hrest.entry_kept v hv (by rw [hfirst]; exact hne), hfirst]
  . intro v hv hother
    rw [numbers_cons, List.mem_cons, not_or] at hother
    rw [hrest.entry_other v hv hother.2, hone.entry_other v hv (fun h => hother.1 (List.mem_singleton.mp h))]
  . intro v hv
    cases hrest.entry_locked v hv with
    | inl hsame =>
      rw [hsame]
      exact hone.entry_locked v hv
    | inr hlocked => exact Or.inr hlocked
  . intro v hv hmem hdir
    have hi : v / 1024 < 1024 := by
      unfold vpnEnd at hv
      omega
    rw [numbers_cons, List.mem_cons] at hmem
    cases hmem with
    | inl heq => exact hkept v hv (hone.entry_made v hv (List.mem_singleton.mpr heq) hdir)
    | inr hmem =>
      apply hrest.entry_made v hv hmem
      rw [hone.dir_kept _ hi hdir]
      exact hdir
  . exact fun frame hframe => hrest.occupied frame (hone.occupied frame hframe)
  . rw [hrest.maxPg_eq, hone.maxPg_eq]

theorem LockRun.locked (hrun : LockRun s pages s') (h : s.Tabled) : Locked s pages s' := by
  induction hrun with
  | nil s => exact locked_nil h
  | cons _ hcases _ ih =>
    have hone := hcases.locked h
    exact hone.cons (ih hone.tabled)

theorem visitEach_lockRun (h : s.Tabled) (pages : List Word)
    : ∃ s', visitEach (fun page => vmmSetMapping page page pgPremR) pages s = .ok () s' ∧ LockRun s pages s' := by
  induction pages generalizing s with
  | nil => exact ⟨s, rfl, .nil s⟩
  | cons page pages ih =>
    obtain ⟨s₁, hresult, hcases⟩ := lockPage_cases h page
    obtain ⟨s', hresult', hrest⟩ := ih (hcases.locked h).tabled
    refine ⟨s', ?_, .cons hresult hcases hrest⟩
    rw [visitEach, bind_ok _ hresult]
    exact hresult'

/--
`lock_reserved_memory` returns, whatever the memory map is.
-/
theorem lockReservedMemory_run (h : s.Tabled) (mmaps : List MultibootMmapEntry)
    : ∃ s', lockReservedMemory mmaps s = .ok () s' ∧ LockRun s (reservedMemory.pages mmaps) s' := by
  unfold lockReservedMemory
  rw [eachEntry_eq]
  exact visitEach_lockRun h _

end Locked

end AwaOS
