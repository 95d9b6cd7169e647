import AwaOS.Boot.LockMemory

/-!
Which reserved pages are mapped after `lock_reserved_memory`. It rounds the start of an entry down, but counts its
pages by the length alone, so that the last page of an entry may be missing.
-/

namespace AwaOS

open Machine reservedMemory

namespace MultibootMmapEntry

/--
The page contains a byte of the entry.
-/
def Touches (e : MultibootMmapEntry) (v : Nat) : Prop :=
  ∃ b, e.base ≤ b ∧ b < e.base + e.length ∧ b / 4096 = v

/--
The page is one of those that are locked for the entry.
-/
def Locks (e : MultibootMmapEntry) (v : Nat) : Prop :=
  e.addrLow.toNat / 4096 ≤ v ∧ v < e.addrLow.toNat / 4096 + (e.lenLow.toNat + 4095) / 4096

/--
The page of the last byte.
-/
def lastPage (e : MultibootMmapEntry) : Nat :=
  (e.base + e.length - 1) / 4096

/--
The entry ends a page below 4 GiB at the latest.
-/
structure Below (e : MultibootMmapEntry) : Prop where
  addrHigh : e.addrHigh = 0
  lenHigh : e.lenHigh = 0
  le : e.addrLow.toNat + e.lenLow.toNat ≤ 2 ^ 32 - 4096

theorem Below.base_eq {e : MultibootMmapEntry} (h : e.Below) : e.base = e.addrLow.toNat := by
  unfold base
  rw [h.addrHigh]
  exact Nat.zero_add _

theorem Below.length_eq {e : MultibootMmapEntry} (h : e.Below) : e.length = e.lenLow.toNat := by
  unfold length
  rw [h.lenHigh]
  exact Nat.zero_add _

end MultibootMmapEntry

/--
Every page table that is asked for while these pages are locked is made.
-/
def NoTableFails (s : Machine) : List Word → Prop
  | [] => True
  | page :: pages =>
    (page.toNat / 4096 < vpnEnd → s.dir (l1Index page) = 0 → (pmmAllocPage s.pmm).1 ≠ 0)
      ∧ ∀ s', vmmSetMapping page page pgPremR s = .ok () s' → NoTableFails s' pages

/--
From `s` to `s'`, every reserved page has been mapped to the frame of the same address, if it was not mapped.
-/
def ReachesReserved (mmaps : List MultibootMmapEntry) (s s' : Machine) : Prop :=
  ∀ v, v < vpnEnd → (∃ e ∈ mmaps, e.type ≠ multibootMemoryAvailable ∧ e.Touches v) →
    s'.Mapped v ∧ (s'.entry v = s.entry v ∨ frameOf (s'.entry v) = v)

/--
The last page of every entry is mapped already, or is among the pages that are locked for some entry.
-/
def LastPagesLocked (mmaps : List MultibootMmapEntry) (s : Machine) : Prop :=
  ∀ e ∈ mmaps, e.type ≠ multibootMemoryAvailable → e.length ≠ 0 → e.lastPage < vpnEnd →
    s.Mapped e.lastPage ∨ ∃ e' ∈ mmaps, e'.type ≠ multibootMemoryAvailable ∧ e'.Locks e.lastPage

section Numbers

theorem toNat_ceilPages {len : Word} (hlt : len.toNat + 4095 < 2 ^ 32)
    : (ceilPages len).toNat = (len.toNat + 4095) / 4096 := by
  unfold ceilPages
  rw [show (1 : Word) <<< 12 = 4096 from rfl, BitVec.toNat_ushiftRight, BitVec.toNat_sub, BitVec.toNat_add,
    show (4096 : Word).toNat = 4096 from rfl, show (1 : Word).toNat = 1 from rfl, Nat.shiftRight_eq_div_pow]
  omega

theorem toNat_page {pa : Word} {i : Nat} (hlt : pa.toNat / 4096 + i < 2 ^ 20)
    : (pgAlign pa + (0 + BitVec.ofNat 32 i) <<< 12).toNat / 4096 = pa.toNat / 4096 + i := by
  have hzero : 0 + BitVec.ofNat 32 i = BitVec.ofNat 32 i := BitVec.zero_add _
  rw [hzero, BitVec.toNat_add, BitVec.toNat_shiftLeft, toNat_pgAlign, BitVec.toNat_ofNat,
    Nat.shiftLeft_eq]
  omega

theorem mem_numbers_pages {mmaps : List MultibootMmapEntry}
    (hbelow : ∀ e ∈ mmaps, e.type ≠ multibootMemoryAvailable → e.Below) (v : Nat)
    : v ∈ numbers (pages mmaps) ↔ ∃ e ∈ mmaps, e.type ≠ multibootMemoryAvailable ∧ e.Locks v := by
  have hpages : ∀ e ∈ mmaps, e.type ≠ multibootMemoryAvailable →
      (ceilPages e.lenLow).toNat = (e.lenLow.toNat + 4095) / 4096
        ∧ ∀ i, i < (e.lenLow.toNat + 4095) / 4096 →
          (pgAlign e.addrLow + (0 + BitVec.ofNat 32 i) <<< 12).toNat / 4096 = e.addrLow.toNat / 4096 + i := by
    intro e he hreserved
    have hle := (hbelow e he hreserved).le
    exact ⟨toNat_ceilPages (by omega), fun i hi => toNat_page (by omega)⟩
  unfold numbers
  rw [List.mem_map]
  constructor
  . intro h
    obtain ⟨page, hpage, hv⟩ := h
    obtain ⟨e, he, hreserved, hfrom⟩ := mem_pages.mp hpage
    obtain ⟨hcount, hnumber⟩ := hpages e he hreserved
    obtain ⟨i, hi, heq⟩ := mem_pagesFrom.mp hfrom
    rw [hcount] at hi
    rw [heq, hnumber i hi] at hv
    refine ⟨e, he, hreserved, ?_⟩
    unfold MultibootMmapEntry.Locks
    omega
  . intro h
    obtain ⟨e, he, hreserved, hge, hlt⟩ := h
    obtain ⟨hcount, hnumber⟩ := hpages e he hreserved
    refine ⟨pgAlign e.addrLow + (0 + BitVec.ofNat 32 (v - e.addrLow.toNat / 4096)) <<< 12, ?_, ?_⟩
    . apply mem_pages.mpr
      refine ⟨e, he, hreserved, mem_pagesFrom.mpr ⟨v - e.addrLow.toNat / 4096, ?_, rfl⟩⟩
      rw [hcount]
      omega
    . rw [hnumber _ (by omega)]
      omega

end Numbers

section Mapped

variable {s s' : Machine} {page : Word} {pages : List Word}

theorem LockPage.entry_ne_zero (h : s.Tabled) (hcases : LockPage s page (.ok () s'))
    (hslot : page.toNat / 4096 < vpnEnd) (hfound : s.dir (l1Index page) = 0 → (pmmAllocPage s.pmm).1 ≠ 0)
    : s'.entry (page.toNat / 4096) ≠ 0 := by
  cases hcases with
  | guarded hguard => exact absurd hslot hguard
  | internal _ made _ hcases =>
    cases made with
    | false =>
      obtain ⟨hsame, hreason⟩ := hcases.refused
      rw [hsame.entry_eq]
      apply hreason.resolve_right
      intro hnull
      rw [(index_div page).1] at hnull
      exact hfound hnull.1 hnull.2
    | true =>
      rw [(hcases.madeEntry h hslot (by decide)).entry_self, newL2Entry_page]
      exact lockedEntry_ne_zero _

/--
If no page table fails, all pages are mapped.
-/
theorem LockRun.mapped (hrun : LockRun s pages s') (h : s.Tabled) (hmade : NoTableFails s pages)
    : ∀ v, v < vpnEnd → v ∈ numbers pages → s'.entry v ≠ 0 := by
  induction hrun with
  | nil s =>
    intro v _ hmem
    contradiction
  | cons hresult hcases hrest ih =>
    intro v hv hmem
    have hone := hcases.locked h
    rw [numbers_cons, List.mem_cons] at hmem
    cases hmem with
    | inl heq =>
      rw [heq] at hv ⊢
      have hfirst := hcases.entry_ne_zero h hv (hmade.1 hv)
      rw [(hrest.locked hone.tabled).entry_kept _ hv hfirst]
      exact hfirst
    | inr hmem => exact ih hone.tabled (hmade.2 _ hresult) v hv hmem

end Mapped

section Reaches

variable {mmaps : List MultibootMmapEntry} {s s' : Machine}

/--
All pages of an entry but the last are locked.
-/
theorem MultibootMmapEntry.Below.locks_of_touches {e : MultibootMmapEntry} (h : e.Below) {v : Nat}
    (htouches : e.Touches v) (hne : v ≠ e.lastPage)
    : e.Locks v := by
  obtain ⟨b, hge, hlt, hv⟩ := htouches
  unfold lastPage at hne
  unfold Locks
  rw [h.base_eq] at hge hlt hne
  rw [h.length_eq] at hlt hne
  omega

theorem MultibootMmapEntry.touches_lastPage {e : MultibootMmapEntry} (hne : e.length ≠ 0) : e.Touches e.lastPage :=
  ⟨e.base + e.length - 1, by omega, by omega, rfl⟩

theorem Locked.mapped_of_mem (h : Locked s (pages mmaps) s')
    (hmapped : ∀ v, v < vpnEnd → v ∈ numbers (pages mmaps) → s'.entry v ≠ 0) {v : Nat} (hv : v < vpnEnd)
    (hmem : v ∈ numbers (pages mmaps))
    : s'.Mapped v ∧ (s'.entry v = s.entry v ∨ frameOf (s'.entry v) = v) := by
  refine ⟨hmapped v hv hmem, ?_⟩
  cases h.entry_locked v hv with
  | inl hsame => exact Or.inl hsame
  | inr hlocked =>
    right
    rw [hlocked, frameOf_lockedEntry hv]

/--
All reserved memory is reachable if and only if the last page of every entry is.
-/
theorem lockReservedMemory_reaches_iff (h : s.Tabled)
    (hbelow : ∀ e ∈ mmaps, e.type ≠ multibootMemoryAvailable → e.Below) (hmade : NoTableFails s (pages mmaps))
    : ∃ s', lockReservedMemory mmaps s = .ok () s' ∧ (ReachesReserved mmaps s s' ↔ LastPagesLocked mmaps s) := by
  obtain ⟨s', hresult, hrun⟩ := lockReservedMemory_run h mmaps
  have hlocked := hrun.locked h
  have hmapped := hrun.mapped h hmade
  have hnumbers := mem_numbers_pages hbelow
  refine ⟨s', hresult, ?_, ?_⟩
  . intro hreaches e he hreserved hlength hlast
    by_cases hmem : e.lastPage ∈ numbers (pages mmaps)
    . exact Or.inr ((hnumbers _).mp hmem)
    . left
      have hafter : s'.entry e.lastPage ≠ 0 :=
        (hreaches _ hlast ⟨e, he, hreserved, e.touches_lastPage hlength⟩).1
      rw [hlocked.entry_other _ hlast hmem] at hafter
      exact hafter
  . intro hlasts v hv htouched
    obtain ⟨e, he, hreserved, htouches⟩ := htouched
    have hlength : e.length ≠ 0 := by
      obtain ⟨b, hge, hlt, _⟩ := htouches
      omega
    by_cases heq : v = e.lastPage
    . rw [heq] at hv ⊢
      cases hlasts e he hreserved hlength hv with
      | inl hbefore =>
        have hkept := hlocked.entry_kept _ hv hbefore
        refine ⟨?_, Or.inl hkept⟩
        change s'.entry _ ≠ 0
        rw [hkept]
        exact hbefore
      | inr hlocks => exact hlocked.mapped_of_mem hmapped hv ((hnumbers _).mpr hlocks)
    . apply hlocked.mapped_of_mem hmapped hv
      apply (hnumbers _).mpr
      exact ⟨e, he, hreserved, (hbelow e he hreserved).locks_of_touches htouches heq⟩

end Reaches

/--
A reserved page that starts with a page.
-/
def wholePage : List MultibootMmapEntry :=
  [{ addrLow := 0x1000, addrHigh := 0, lenLow := 0x1000, lenHigh := 0, type := 2 }]

theorem lockReservedMemory_reaches_wholePage
    : ∃ s', lockReservedMemory wholePage bootMachine = .ok () s' ∧ ReachesReserved wholePage bootMachine s' := by
  have hbelow : ∀ e ∈ wholePage, e.type ≠ multibootMemoryAvailable → e.Below := by
    intro e he _
    rw [List.mem_singleton.mp he]
    exact ⟨rfl, rfl, by decide⟩
  obtain ⟨s', hresult, hreaches⟩ := lockReservedMemory_reaches_iff wellFormed_bootMachine.tabled hbelow
    ⟨fun _ _ => supplies_bootMachine.1, fun _ _ => trivial⟩
  refine ⟨s', hresult, hreaches.mpr ?_⟩
  intro e he hreserved _ _
  right
  refine ⟨e, he, hreserved, ?_⟩
  rw [List.mem_singleton.mp he]
  unfold MultibootMmapEntry.Locks
  decide

/--
A reserved page that starts in the middle of a page.
-/
def halfPages : List MultibootMmapEntry :=
  [{ addrLow := 0x800, addrHigh := 0, lenLow := 0x1000, lenHigh := 0, type := 2 }]

/--
The second page, which holds the second half, is not mapped.
-/
theorem lockReservedMemory_misses_halfPages
    : bootMachine.WellFormed ∧ (∀ e ∈ halfPages, e.Below) ∧ NoTableFails bootMachine (pages halfPages)
        ∧ ∃ s', lockReservedMemory halfPages bootMachine = .ok () s'
          ∧ ¬ReachesReserved halfPages bootMachine s' := by
  refine ⟨wellFormed_bootMachine, ?_, ⟨fun _ _ => supplies_bootMachine.1, fun _ _ => trivial⟩, ?_⟩
  . intro e he
    rw [List.mem_singleton.mp he]
    exact ⟨rfl, rfl, by decide⟩
  . obtain ⟨s', hresult, hrun⟩ := lockReservedMemory_run wellFormed_bootMachine.tabled halfPages
    have hlocked := hrun.locked wellFormed_bootMachine.tabled
    refine ⟨s', hresult, fun hreaches => ?_⟩
    have htouched : ∃ e ∈ halfPages, e.type ≠ multibootMemoryAvailable ∧ e.Touches 1 :=
      ⟨_, List.mem_singleton_self _, by decide, 0x1000, show 2 ^ 32 * 0 + 0x800 ≤ 0x1000 by omega,
        show 0x1000 < 2 ^ 32 * 0 + 0x800 + (2 ^ 32 * 0 + 0x1000) by omega, rfl⟩
    have hmapped : s'.entry 1 ≠ 0 := (hreaches 1 (by decide) htouched).1
    rw [hlocked.entry_other 1 (by decide) (by decide)] at hmapped
    exact @not_mapped_of_directory bootMachine rfl rfl 1 (by decide) hmapped

end AwaOS
