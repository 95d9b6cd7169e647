import AwaOS.Pmm.Run

/-!
When `pmm_alloc_page` finds a free page. Its scan can pass free pages: skipping a byte keeps the offset
of `pg_lookup_ptr`, there is no wrap around behind a byte that is not `0xFF`, and a pointer at or above
`max_pg` ends every later call at once.
-/

namespace AwaOS

namespace Pmm

/--
No page that `pmm_alloc_page` has to consider is free.
-/
def Full (pmm : Pmm) : Prop :=
  ∀ ppn, lookupStart ≤ ppn → ppn < pmm.maxPg → pmm.occupied ppn = true

/--
The scan of the next `pmm_alloc_page` inspects a free page if there is one below `max_pg`, and no free
page from `max_pg` on if there is none.
-/
structure ScanCovers (pmm : Pmm) : Prop where
  finds : ¬pmm.Full → ∃ ppn, pmm.Scans ppn ∧ pmm.occupied ppn = false
  stays : pmm.Full → ∀ ppn, pmm.maxPg ≤ ppn → pmm.Scans ppn → pmm.occupied ppn = true

theorem Scans.pos {pmm : Pmm} {ppn : Nat} (h : pmm.Scans ppn) (hfree : pmm.occupied ppn = false)
    (hfull : pmm.Full)
    : pmm.maxPg ≤ ppn := by
  have hpos := pmm.pgLookupPtr_pos
  apply Nat.le_of_not_lt
  intro hlt
  have hzero : ppn = 0 := by
    by_contra hne
    rw [hfull ppn (Nat.pos_of_ne_zero hne) hlt] at hfree
    contradiction
  -- page `0` lies before every start of a scan
  subst hzero
  cases h with
  | inl hfirst =>
    obtain ⟨_, _, hoff | ⟨_, group, _, hgroup, _⟩⟩ := hfirst
    . omega
    . omega
  | inr hsecond =>
    obtain ⟨_, _, _, _, hoff | ⟨_, group, _, hgroup, _⟩⟩ := hsecond
    . simp only [lookupStart] at hoff
      omega
    . omega

end Pmm

theorem pmmAllocPage_ne_null_iff (pmm : Pmm)
    : (pmmAllocPage pmm).1 ≠ 0 ↔ ∃ ppn, pmm.Scans ppn ∧ pmm.occupied ppn = false := by
  have hold : pmm.pgLookupPtr < pmm.maxPg → pmm.pgLookupPtr < 2 ^ 20 :=
    fun hlt => Nat.lt_trans hlt pmm.maxPg_lt
  unfold pmmAllocPage
  rw [pmmAllocPage.go_ne_null_iff pmm _ _ pmm.maxPg_lt hold]
  constructor
  . rintro ⟨hlt, ⟨ppn, hfree, hsweeps⟩ | ⟨hne, hends, ppn, hfree, hsweeps⟩⟩
    . exact ⟨ppn, Or.inl ⟨hlt, hsweeps⟩, hfree⟩
    . exact ⟨ppn, Or.inr ⟨hlt, hne, hends, hsweeps⟩, hfree⟩
  . rintro ⟨ppn, ⟨hlt, hsweeps⟩ | ⟨hlt, hne, hends, hsweeps⟩, hfree⟩
    . exact ⟨hlt, Or.inl ⟨ppn, hfree, hsweeps⟩⟩
    . exact ⟨hlt, Or.inr ⟨hne, hends, ppn, hfree, hsweeps⟩⟩

theorem pmmAllocPage_null_iff_full_iff (pmm : Pmm)
    : ((pmmAllocPage pmm).1 = 0 ↔ pmm.Full) ↔ pmm.ScanCovers := by
  have hfound := pmmAllocPage_ne_null_iff pmm
  constructor
  . intro hnull
    constructor
    . intro hfull
      exact hfound.mp (mt hnull.mp hfull)
    . intro hfull ppn _ hscans
      by_contra hfree
      exact hfound.mpr ⟨ppn, hscans, by simpa using hfree⟩ (hnull.mpr hfull)
  . intro hcovers
    constructor
    . intro hnull
      by_contra hfull
      exact hfound.mpr (hcovers.finds hfull) hnull
    . intro hfull
      by_contra hne
      obtain ⟨ppn, hscans, hfree⟩ := hfound.mp hne
      rw [hcovers.stays hfull ppn (hscans.pos hfree hfull) hscans] at hfree
      contradiction

/--
A page that `pmm_free_page` accepts is free afterwards.
-/
theorem not_full_of_pmmFreePage (pmm : Pmm) (page : Word) (h : (pmmFreePage pmm page).1 = true)
    : ¬(pmmFreePage pmm page).2.Full := by
  unfold pmmFreePage at *
  dsimp at *
  split at h
  . next hpage =>
    rw [if_pos hpage]
    intro hfull
    have := hfull (page >>> 12).toNat (Nat.pos_of_ne_zero hpage.1) hpage.2
    simp at this
  . contradiction

/--
In every run, `pmm_alloc_page` is complete exactly in the states in which its scan covers the free
pages. In particular it succeeds after a successful `pmm_free_page` exactly then.
-/
theorem pmmAllocPage_complete_iff (pmBitmap : Bitmap) (memUpperLim : Word) (ops : List PmmOp)
    : let pmm := Pmm.after pmBitmap memUpperLim ops
      (((pmmAllocPage pmm).1 = 0 ↔ pmm.Full) ↔ pmm.ScanCovers)
        ∧
      ∀ page, (pmmFreePage pmm page).1 = true →
        ((pmmAllocPage (pmmFreePage pmm page).2).1 ≠ 0 ↔ (pmmFreePage pmm page).2.ScanCovers) := by
  intro pmm
  refine ⟨pmmAllocPage_null_iff_full_iff pmm, ?_⟩
  intro page hfreed
  rw [← pmmAllocPage_null_iff_full_iff]
  have := not_full_of_pmmFreePage pmm page hfreed
  simp [this]

/--
A machine with 16 pages whose page `8` is the only free one.
-/
def pmmPageEight : Pmm :=
  Pmm.after (fun _ => 0x00#8) 0x10000#32 [.markPageFree 8]

theorem occupied_pmmPageEight (ppn : Nat) (h : ppn < 2 ^ 20)
    : pmmPageEight.occupied ppn = decide (ppn ≠ 8) := by
  simp [pmmPageEight, Pmm.after, PmmOp.exec, occupied_pmmInit _ _ ppn h]

/--
From `LOOKUP_START` the scan skips the first byte and inspects pages `9` to `15` of the second one.
-/
theorem pmmAllocPage_misses_page_eight
    : (pmmAllocPage pmmPageEight).1 = 0 ∧ ¬pmmPageEight.Full := by
  have hmaxPg : pmmPageEight.maxPg = 16 := by rfl
  have hptr : pmmPageEight.pgLookupPtr = 1 := by rfl
  constructor
  . by_contra hne
    obtain ⟨ppn, hfirst | hsecond, hfree⟩ := (pmmAllocPage_ne_null_iff pmmPageEight).mp hne
    . obtain ⟨_, _, hreach⟩ := hfirst
      rw [hmaxPg, hptr] at hreach
      rw [occupied_pmmPageEight ppn (by omega)] at hfree
      have hppn : ppn = 8 := by simpa using hfree
      subst hppn
      obtain hoff | ⟨_, group, _, hlt, hbyte⟩ := hreach
      . omega
      . have hgroup : group = 0 := by omega
        subst hgroup
        obtain ⟨q, hq, hclear⟩ := Pmm.exists_free_of_byte_ne hbyte
        have := occupied_pmmPageEight q (by omega)
        unfold Pmm.occupied at this
        rw [hclear] at this
        simp at this
        omega
    . exact hsecond.2.1 hptr
  . intro hfull
    have := hfull 8 (by decide) (by rw [hmaxPg]; decide)
    rw [occupied_pmmPageEight 8 (by decide)] at this
    contradiction

end AwaOS
