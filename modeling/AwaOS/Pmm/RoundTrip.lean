import AwaOS.Pmm.Run

/-!
Whether a frame can be given back. `pmm_alloc_page` compares `pg_lookup_ptr` with `max_pg` once for each byte of
the bitmap and then takes any free page of that byte, whereas `pmm_free_page` compares the page.
-/

namespace AwaOS

namespace Pmm

/--
The first free page that the scan of `[start, lim)` inspects.
-/
structure FirstFree (bm : Bitmap) (start lim ppn : Nat) : Prop where
  sweeps : Sweeps bm start lim ppn
  least : ∀ q, bm.test q = false → Sweeps bm start lim q → ppn ≤ q

theorem FirstFree.congr {bm : Bitmap} {start start' lim ppn : Nat} (h : FirstFree bm start lim ppn)
    (hfree : bm.test ppn = false)
    (heq : ∀ q, bm.test q = false → (Sweeps bm start lim q ↔ Sweeps bm start' lim q))
    : FirstFree bm start' lim ppn := by
  constructor
  . exact (heq ppn hfree).mp h.sweeps
  . intro q hq hsweeps
    exact h.least q hq ((heq q hq).mpr hsweeps)

/--
If the scan from `pg_lookup_ptr` to `max_pg` inspects a free page at all, then it inspects one below `max_pg`.
-/
def StaysBelow (pmm : Pmm) : Prop :=
  SweepFinds pmm.pmBitmap pmm.pgLookupPtr pmm.maxPg →
    ∃ ppn, ppn < pmm.maxPg ∧ pmm.pmBitmap.test ppn = false ∧ Sweeps pmm.pmBitmap pmm.pgLookupPtr pmm.maxPg ppn

end Pmm

namespace pmmAllocPage

open Pmm

theorem go_free (pmm : Pmm) (oldPgPtr upperLim : Nat) (hupper : upperLim < 2 ^ 20)
    (hold : pmm.pgLookupPtr < upperLim → oldPgPtr < 2 ^ 20) (hne : (go pmm oldPgPtr upperLim).1 ≠ 0)
    : pmm.pmBitmap.test ((go pmm oldPgPtr upperLim).1 >>> 12).toNat = false := by
  cases go_outcome pmm oldPgPtr upperLim hupper hold with
  | inl hnull => exact absurd hnull.1 hne
  | inr hfound =>
    obtain ⟨ppn, haddr, htook⟩ := hfound
    rw [haddr, toNat_ppnAddr ppn htook.lt]
    exact htook.free

/--
The page that `go` hands out: the first free one of its first scan, or one of the second scan if the first finds
none.
-/
theorem go_page (pmm : Pmm) (oldPgPtr upperLim : Nat) (hupper : upperLim < 2 ^ 20)
    (hold : pmm.pgLookupPtr < upperLim → oldPgPtr < 2 ^ 20) (hne : (go pmm oldPgPtr upperLim).1 ≠ 0)
    : FirstFree pmm.pmBitmap pmm.pgLookupPtr upperLim ((go pmm oldPgPtr upperLim).1 >>> 12).toNat
        ∨
      ¬SweepFinds pmm.pmBitmap pmm.pgLookupPtr upperLim
        ∧
      Sweeps pmm.pmBitmap lookupStart oldPgPtr ((go pmm oldPgPtr upperLim).1 >>> 12).toNat := by
  fun_induction go pmm oldPgPtr upperLim with
  | case1 pmm oldPgPtr upperLim hlt chunk hchunk i pmm' hi =>
    left
    have hgroup : pmm.pgLookupPtr >>> 3 = pmm.pgLookupPtr / 8 := Nat.shiftRight_eq_div_pow _ 3
    have hle := le_scanChunk chunk (pmm.pgLookupPtr % 8)
    have hppn : pmm'.pgLookupPtr < 2 ^ 20 := found_lt hlt hupper hi
    have hptr : pmm'.pgLookupPtr = pmm.pgLookupPtr + (i - pmm.pgLookupPtr % 8) := rfl
    simp only
    rw [toNat_ppnAddr _ hppn, hptr]
    constructor
    . exact ⟨by omega, Or.inl ⟨by omega, by omega⟩⟩
    . intro q hfree hsweeps
      obtain ⟨hge, hreach⟩ := hsweeps
      by_cases hbyte : q / 8 = pmm.pgLookupPtr / 8
      . have hoff : pmm.pgLookupPtr % 8 ≤ q % 8 := by
          cases hreach with
          | inl hoff => exact hoff.1
          | inr hnext =>
            obtain ⟨_, group, hgroup', hlt', _⟩ := hnext
            omega
        -- a free page of the byte stops the scan of the byte
        have hstop : i ≤ q % 8 := by
          apply Nat.le_of_not_lt
          intro hlt'
          have hset := scanChunk_passed chunk (pmm.pgLookupPtr % 8) (q % 8) hoff hlt' (by omega)
          unfold Bitmap.test at hfree
          rw [hbyte, ← hgroup] at hfree
          rw [hfree] at hset
          cases hset
        omega
      . omega
  | case2 pmm oldPgPtr upperLim hlt chunk hchunk i pmm' hi ih =>
    have hgroup : pmm.pgLookupPtr >>> 3 = pmm.pgLookupPtr / 8 := Nat.shiftRight_eq_div_pow _ 3
    have hi8 : i = 8 := by
      have := scanChunk_le chunk (pmm.pgLookupPtr % 8) (by omega)
      omega
    have hbyte : pmm.pmBitmap (pmm.pgLookupPtr / 8) ≠ 0xFF#8 := by
      rw [← hgroup]
      exact hchunk
    have hpassed :
        ∀ j, pmm.pgLookupPtr % 8 ≤ j → j < 8 → (pmm.pmBitmap (pmm.pgLookupPtr / 8)).getMsbD j = true := by
      intro j hj hj8
      rw [← hgroup]
      exact scanChunk_passed chunk _ j hj (by omega) hj8
    have hptr : pmm'.pgLookupPtr = pmm.pgLookupPtr + (8 - pmm.pgLookupPtr % 8) := by
      simp only [pmm', hi8, pgLookupPtr_advance]
    have hbitmap : pmm'.pmBitmap = pmm.pmBitmap := rfl
    have hfree := go_free pmm' oldPgPtr upperLim hupper (fun _ => hold hlt) hne
    have hrest := ih hupper (fun _ => hold hlt) hne
    rw [hptr, hbitmap, sweepFinds_realign hbyte hpassed] at hrest
    rw [hbitmap] at hfree
    cases hrest with
    | inl hfirst => exact Or.inl (hfirst.congr hfree (fun q hq => sweeps_realign hbyte hpassed hq))
    | inr hsecond => exact Or.inr hsecond
  | case3 pmm oldPgPtr upperLim hlt chunk hchunk pmm' hwrap ih =>
    right
    have hfull : pmm.pmBitmap (pmm.pgLookupPtr / 8) = 0xFF#8 := by
      have hgroup : pmm.pgLookupPtr >>> 3 = pmm.pgLookupPtr / 8 := Nat.shiftRight_eq_div_pow _ 3
      rw [← hgroup]
      exact Decidable.not_not.mp hchunk
    have hbitmap : pmm'.rewind.pmBitmap = pmm.pmBitmap := rfl
    have hptr : pmm'.rewind.pgLookupPtr = lookupStart := rfl
    have hfree := go_free pmm'.rewind lookupStart oldPgPtr (hold hlt) (fun _ => by decide) hne
    have hrest := ih (hold hlt) (fun _ => by decide) hne
    rw [hbitmap] at hfree
    rw [hptr, hbitmap] at hrest
    constructor
    . rw [← sweepFinds_skip hfull]
      exact not_sweepFinds_of_le hwrap.1
    . cases hrest with
      | inl hfirst => exact hfirst.sweeps
      | inr hsecond => exact absurd ⟨_, hfree, hsecond.2⟩ (not_sweepFinds_of_le (Nat.le_refl lookupStart))
  | case4 pmm oldPgPtr upperLim hlt chunk hchunk pmm' hwrap ih =>
    have hfull : pmm.pmBitmap (pmm.pgLookupPtr / 8) = 0xFF#8 := by
      have hgroup : pmm.pgLookupPtr >>> 3 = pmm.pgLookupPtr / 8 := Nat.shiftRight_eq_div_pow _ 3
      rw [← hgroup]
      exact Decidable.not_not.mp hchunk
    have hbitmap : pmm'.pmBitmap = pmm.pmBitmap := rfl
    have hptr : pmm'.pgLookupPtr = pmm.pgLookupPtr + 8 := rfl
    have hfree := go_free pmm' oldPgPtr upperLim hupper (fun _ => hold hlt) hne
    have hrest := ih hupper (fun _ => hold hlt) hne
    rw [hptr, hbitmap, sweepFinds_skip hfull] at hrest
    rw [hbitmap] at hfree
    cases hrest with
    | inl hfirst => exact Or.inl (hfirst.congr hfree (fun q hq => sweeps_skip hfull hq))
    | inr hsecond => exact Or.inr hsecond
  | case5 pmm oldPgPtr upperLim hlt => exact absurd rfl hne

end pmmAllocPage

/--
The page that `pmm_alloc_page` returns is below `max_pg`, `pmm_free_page` takes it back, and the bitmap is then as
it was.
-/
def GivenBack (pmm : Pmm) : Prop :=
  let res := pmmAllocPage pmm
  res.1 ≠ 0 →
    (res.1 >>> 12).toNat < pmm.maxPg
      ∧ (pmmFreePage res.2 res.1).1 = true
      ∧ (pmmFreePage res.2 res.1).2.pmBitmap = pmm.pmBitmap

theorem pmmFreePage_accepts {pmm : Pmm} {page : Word} (hpos : (page >>> 12).toNat ≠ 0)
    (hlt : (page >>> 12).toNat < pmm.maxPg)
    : pmmFreePage pmm page = (true, pmmMarkPageFree pmm (page >>> 12)) := by
  unfold pmmFreePage
  exact if_pos (And.intro hpos hlt)

theorem clear_set {bm : Bitmap} {q : Nat} (hfree : bm.test q = false) : (bm.set q).clear q = bm := by
  apply Bitmap.ext
  intro r
  rw [Bitmap.test_clear, Bitmap.test_set]
  by_cases hr : r = q
  . subst hr
    simp [hfree]
  . simp [hr]

theorem givenBack_iff_lt (pmm : Pmm)
    : GivenBack pmm ↔ ((pmmAllocPage pmm).1 ≠ 0 → ((pmmAllocPage pmm).1 >>> 12).toNat < pmm.maxPg) := by
  unfold GivenBack
  dsimp only
  constructor
  . intro h hne
    exact (h hne).1
  . intro h hne
    have htook := pmmAllocPage_took pmm hne
    have hlt := h hne
    have hlt' : ((pmmAllocPage pmm).1 >>> 12).toNat < (pmmAllocPage pmm).2.maxPg := by
      rw [htook.maxPg]
      exact hlt
    rw [pmmFreePage_accepts (Nat.ne_of_gt htook.pos) hlt']
    refine ⟨hlt, rfl, ?_⟩
    unfold pmmMarkPageFree
    rw [Pmm.pmBitmap_setBitmap, htook.bitmap]
    exact clear_set htook.free

/--
A page of the second scan is below the old `pg_lookup_ptr`: the first scan inspects all other pages of its byte.
-/
theorem lt_of_second_scan {bm : Bitmap} {ptr lim ppn : Nat} (hlt : ptr < lim) (hfree : bm.test ppn = false)
    (hfirst : ¬Pmm.SweepFinds bm ptr lim) (hsweeps : Pmm.Sweeps bm Pmm.lookupStart ptr ppn)
    : ppn < lim := by
  obtain ⟨_, hreach⟩ := hsweeps
  have hbyte : 8 * (ppn / 8) < ptr := by
    cases hreach with
    | inl hoff => omega
    | inr hnext => exact hnext.1
  apply Nat.lt_of_not_le
  intro hle
  apply hfirst
  exact ⟨ppn, hfree, by omega, Or.inl ⟨by omega, by omega⟩⟩

theorem givenBack_iff (pmm : Pmm) : GivenBack pmm ↔ pmm.StaysBelow := by
  have hold : pmm.pgLookupPtr < pmm.maxPg → pmm.pgLookupPtr < 2 ^ 20 :=
    fun hlt => Nat.lt_trans hlt pmm.maxPg_lt
  have hpage : (pmmAllocPage pmm).1 ≠ 0 → _ :=
    pmmAllocPage.go_page pmm pmm.pgLookupPtr pmm.maxPg pmm.maxPg_lt hold
  have hfound := pmmAllocPage.go_ne_null_iff pmm pmm.pgLookupPtr pmm.maxPg pmm.maxPg_lt hold
  rw [givenBack_iff_lt]
  constructor
  . intro hbelow hfinds
    have hlt : pmm.pgLookupPtr < pmm.maxPg := by
      apply Nat.lt_of_not_le
      intro hle
      exact Pmm.not_sweepFinds_of_le hle hfinds
    have hne : (pmmAllocPage pmm).1 ≠ 0 := hfound.mpr ⟨hlt, Or.inl hfinds⟩
    have htook := pmmAllocPage_took pmm hne
    cases hpage hne with
    | inl hfirst => exact ⟨_, hbelow hne, htook.free, hfirst.sweeps⟩
    | inr hsecond => exact absurd hfinds hsecond.1
  . intro hstays hne
    have hlt := (hfound.mp hne).1
    have htook := pmmAllocPage_took pmm hne
    cases hpage hne with
    | inl hfirst =>
      obtain ⟨q, hq, hfree, hsweeps⟩ := hstays ⟨_, htook.free, hfirst.sweeps⟩
      exact Nat.lt_of_le_of_lt (hfirst.least q hfree hsweeps) hq
    | inr hsecond => exact lt_of_second_scan hlt htook.free hsecond.1 hsecond.2

/--
The pages from `max_pg` to the end of its byte are what matters.
-/
theorem staysBelow_of_occupied {pmm : Pmm}
    (h : ∀ ppn, pmm.maxPg ≤ ppn → ppn < (pmm.maxPg + 7) / 8 * 8 → pmm.occupied ppn = true)
    : pmm.StaysBelow := by
  intro hfinds
  obtain ⟨ppn, hfree, hsweeps⟩ := hfinds
  refine ⟨ppn, ?_, hfree, hsweeps⟩
  obtain ⟨_, hreach⟩ := hsweeps
  apply Nat.lt_of_not_le
  intro hle
  have hoccupied : pmm.occupied ppn = true := by
    apply h ppn hle
    cases hreach with
    | inl hoff => omega
    | inr hnext => omega
  unfold Pmm.occupied at hoccupied
  rw [hfree] at hoccupied
  cases hoccupied

/--
In every run, a frame that `pmm_alloc_page` returns can be given back exactly in the states in which the scan stays
below `max_pg`.
-/
theorem frame_givenBack_iff (pmBitmap : Bitmap) (memUpperLim : Word) (ops : List PmmOp)
    : GivenBack (Pmm.after pmBitmap memUpperLim ops) ↔ (Pmm.after pmBitmap memUpperLim ops).StaysBelow := by
  exact givenBack_iff _

/--
A machine with 10 pages that has marked page 12 as free.
-/
def pmmPageTwelve : Pmm :=
  Pmm.after (fun _ => 0x00#8) 0xA000#32 [.markPageFree 12]

theorem occupied_pmmPageTwelve (ppn : Nat) (h : ppn < 2 ^ 20)
    : pmmPageTwelve.occupied ppn = decide (ppn ≠ 12) := by
  simp [pmmPageTwelve, Pmm.after, PmmOp.exec, occupied_pmmInit _ _ ppn h]

/--
The byte of pages 8 to 15 is inspected because page 9 is below `max_pg`.
-/
theorem frame_not_givenBack : ¬GivenBack pmmPageTwelve := by
  have hmaxPg : pmmPageTwelve.maxPg = 10 := by rfl
  have hptr : pmmPageTwelve.pgLookupPtr = 1 := by rfl
  rw [givenBack_iff]
  intro hstays
  have hfree : pmmPageTwelve.occupied 12 = false := by
    rw [occupied_pmmPageTwelve 12 (by decide)]
    rfl
  have hsweeps : Pmm.Sweeps pmmPageTwelve.pmBitmap pmmPageTwelve.pgLookupPtr pmmPageTwelve.maxPg 12 := by
    rw [hmaxPg, hptr]
    exact ⟨by decide, Or.inl ⟨by decide, by decide⟩⟩
  obtain ⟨ppn, hlt, hppn, _⟩ := hstays ⟨12, hfree, hsweeps⟩
  rw [hmaxPg] at hlt
  have hoccupied := occupied_pmmPageTwelve ppn (by omega)
  unfold Pmm.occupied at hoccupied
  rw [hppn] at hoccupied
  have hne : ppn ≠ 12 := by omega
  simp [hne] at hoccupied

end AwaOS
