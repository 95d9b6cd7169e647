import AwaOS.Pmm.Lemmas.Basic

/-!
What `pmm_alloc_page` can return, and which pages its scan inspects.
-/

namespace AwaOS

/--
The state after `pmm_alloc_page` handed out page `ppn`.
-/
structure Pmm.Took (pmm pmm' : Pmm) (ppn : Nat) : Prop where
  pos : 0 < ppn
  lt : ppn < 2 ^ 20
  free : pmm.occupied ppn = false
  bitmap : pmm'.pmBitmap = pmm.pmBitmap.set ppn
  maxPg : pmm'.maxPg = pmm.maxPg

/--
The state after `pmm_alloc_page` returned `NULL`.
-/
structure Pmm.Exhausted (pmm pmm' : Pmm) : Prop where
  bitmap : pmm'.pmBitmap = pmm.pmBitmap
  maxPg : pmm'.maxPg = pmm.maxPg

/--
What `pmm_alloc_page` can do: return `NULL` and keep the bitmap, or hand out one free page.
-/
def Pmm.Outcome (pmm : Pmm) (res : Word × Pmm) : Prop :=
  (res.1 = 0 ∧ pmm.Exhausted res.2)
    ∨
  ∃ ppn, res.1 = BitVec.ofNat 32 (ppn <<< 12) ∧ pmm.Took res.2 ppn

/--
Moving `pg_lookup_ptr` changes neither case.
-/
theorem Pmm.Outcome.of_moved {pmm pmm' : Pmm} {res : Word × Pmm} (h : pmm'.Outcome res)
    (hbitmap : pmm'.pmBitmap = pmm.pmBitmap) (hmaxPg : pmm'.maxPg = pmm.maxPg)
    : pmm.Outcome res := by
  cases h with
  | inl hnull => exact Or.inl ⟨hnull.1, hnull.2.bitmap.trans hbitmap, hnull.2.maxPg.trans hmaxPg⟩
  | inr hfound =>
    obtain ⟨ppn, haddr, htook⟩ := hfound
    refine Or.inr ⟨ppn, haddr, htook.pos, htook.lt, ?_, ?_, htook.maxPg.trans hmaxPg⟩
    . rw [← htook.free]
      unfold occupied
      rw [hbitmap]
    . rw [htook.bitmap, hbitmap]

namespace pmmAllocPage

theorem found_lt {ptr i upperLim : Nat} (hlt : ptr < upperLim) (hupper : upperLim < 2 ^ 20) (hi : i < 8)
    : ptr + (i - ptr % 8) < 2 ^ 20 := by
  omega

theorem go_outcome (pmm : Pmm) (oldPgPtr upperLim : Nat) (hupper : upperLim < 2 ^ 20)
    (hold : pmm.pgLookupPtr < upperLim → oldPgPtr < 2 ^ 20)
    : pmm.Outcome (go pmm oldPgPtr upperLim) := by
  fun_induction go pmm oldPgPtr upperLim with
  | case1 pmm oldPgPtr upperLim hlt chunk hchunk i pmm' hi =>
    right
    have hle := le_scanChunk chunk (pmm.pgLookupPtr % 8)
    have hppn : pmm'.pgLookupPtr < 2 ^ 20 := found_lt hlt hupper hi
    have htoNat : (BitVec.ofNat 32 pmm'.pgLookupPtr).toNat = pmm'.pgLookupPtr := by
      simp only [BitVec.toNat_ofNat]
      omega
    refine ⟨pmm'.pgLookupPtr, rfl, pmm'.pgLookupPtr_pos, hppn, ?_, ?_, rfl⟩
    . have hgroup : pmm'.pgLookupPtr / 8 = pmm.pgLookupPtr >>> 3 := by
        simp only [pmm', Pmm.pgLookupPtr_advance, Nat.shiftRight_eq_div_pow]
        omega
      have hbit : pmm'.pgLookupPtr % 8 = i := by
        simp only [pmm', Pmm.pgLookupPtr_advance]
        omega
      unfold Pmm.occupied Bitmap.test
      rw [hgroup, hbit]
      exact scanChunk_stopped chunk _ hi
    . unfold pmmMarkPageOccupied
      rw [htoNat]
      rfl
  | case2 pmm oldPgPtr upperLim hlt chunk hchunk i pmm' hi ih =>
    exact (ih hupper (fun _ => hold hlt)).of_moved rfl rfl
  | case3 pmm oldPgPtr upperLim hlt chunk hchunk pmm' hwrap ih =>
    exact (ih (hold hlt) (fun _ => by decide)).of_moved rfl rfl
  | case4 pmm oldPgPtr upperLim hlt chunk hchunk pmm' hwrap ih =>
    exact (ih hupper (fun _ => hold hlt)).of_moved rfl rfl
  | case5 pmm oldPgPtr upperLim hlt => exact Or.inl ⟨rfl, rfl, rfl⟩

end pmmAllocPage

theorem pmmAllocPage_outcome (pmm : Pmm) : pmm.Outcome (pmmAllocPage pmm) := by
  apply pmmAllocPage.go_outcome
  . exact pmm.maxPg_lt
  . intro hlt
    have := pmm.maxPg_lt
    omega

theorem pmmAllocPage_null (pmm : Pmm) (h : (pmmAllocPage pmm).1 = 0)
    : pmm.Exhausted (pmmAllocPage pmm).2 := by
  cases pmmAllocPage_outcome pmm with
  | inl hnull => exact hnull.2
  | inr hfound =>
    obtain ⟨ppn, haddr, htook⟩ := hfound
    rw [haddr] at h
    exact absurd h (shiftLeft_ne_null ppn htook.pos htook.lt)

theorem pmmAllocPage_took (pmm : Pmm) (h : (pmmAllocPage pmm).1 ≠ 0)
    : pmm.Took (pmmAllocPage pmm).2 ((pmmAllocPage pmm).1 >>> 12).toNat := by
  cases pmmAllocPage_outcome pmm with
  | inl hnull => exact absurd hnull.1 h
  | inr hfound =>
    obtain ⟨ppn, haddr, htook⟩ := hfound
    rw [haddr, toNat_ppnAddr ppn htook.lt]
    exact htook

theorem pmmAllocPage_keeps_occupied (pmm : Pmm) {ppn : Nat} (h : pmm.occupied ppn = true)
    : (pmmAllocPage pmm).2.occupied ppn = true := by
  unfold Pmm.occupied at *
  by_cases hnull : (pmmAllocPage pmm).1 = 0
  . rw [(pmmAllocPage_null pmm hnull).bitmap]
    exact h
  . rw [(pmmAllocPage_took pmm hnull).bitmap, Bitmap.test_set, h, Bool.or_true]

namespace Pmm

/--
A scan that starts at page `start` inspects page `ppn` before it passes `lim`, unless it finds a free
page earlier. While the bytes are `0xFF` the scan keeps the offset that `start` has in its byte. After
a byte that has a free page below the offset only, it goes on at the first page of each byte.
-/
def Sweeps (bm : Bitmap) (start lim ppn : Nat) : Prop :=
  start / 8 ≤ ppn / 8
    ∧
  ((start % 8 ≤ ppn % 8 ∧ 8 * (ppn / 8) + start % 8 < lim)
    ∨
   (8 * (ppn / 8) < lim ∧ ∃ group, start / 8 ≤ group ∧ group < ppn / 8 ∧ bm group ≠ 0xFF#8))

/--
A scan of `[start, lim)` that finds nothing leaves its loop through a byte that is `0xFF`.
-/
def EndsFull (bm : Bitmap) (start lim : Nat) : Prop :=
  8 * ((lim - 1) / 8) + start % 8 < lim → bm ((lim - 1) / 8) = 0xFF#8

/--
The pages that `pmm_alloc_page` inspects: those of the scan from `pg_lookup_ptr`, and those of the
scan from `LOOKUP_START` if the first one starts below `max_pg` and wraps around.
-/
def Scans (pmm : Pmm) (ppn : Nat) : Prop :=
  (pmm.pgLookupPtr < pmm.maxPg ∧ Sweeps pmm.pmBitmap pmm.pgLookupPtr pmm.maxPg ppn)
    ∨
  (pmm.pgLookupPtr < pmm.maxPg
    ∧ pmm.pgLookupPtr ≠ lookupStart
    ∧ EndsFull pmm.pmBitmap pmm.pgLookupPtr pmm.maxPg
    ∧ Sweeps pmm.pmBitmap lookupStart pmm.pgLookupPtr ppn)

/--
Some free page is among those that a scan of `[start, lim)` inspects.
-/
def SweepFinds (bm : Bitmap) (start lim : Nat) : Prop :=
  ∃ ppn, bm.test ppn = false ∧ Sweeps bm start lim ppn

theorem not_sweepFinds_of_le {bm : Bitmap} {start lim : Nat} (h : lim ≤ start)
    : ¬SweepFinds bm start lim := by
  rintro ⟨ppn, _, hgroup, hoff | ⟨hlim, group, hge, hlt, _⟩⟩
  . omega
  . omega

theorem byte_ne_of_free {bm : Bitmap} {ppn : Nat} (h : bm.test ppn = false)
    : bm (ppn / 8) ≠ 0xFF#8 := by
  intro hfull
  unfold Bitmap.test at h
  rw [hfull, Bitmap.getMsbD_allOnes_byte (by omega)] at h
  contradiction

theorem exists_free_of_byte_ne {bm : Bitmap} {group : Nat} (h : bm group ≠ 0xFF#8)
    : ∃ ppn, ppn / 8 = group ∧ bm.test ppn = false := by
  obtain ⟨i, hi, hbit⟩ := Bitmap.exists_getMsbD_false h
  have hdiv : (8 * group + i) / 8 = group := by omega
  have hmod : (8 * group + i) % 8 = i := by omega
  refine ⟨8 * group + i, hdiv, ?_⟩
  unfold Bitmap.test
  rw [hdiv, hmod]
  exact hbit

/--
Skipping a byte that is `0xFF` loses no free page.
-/
theorem sweeps_skip {bm : Bitmap} {ptr lim ppn : Nat} (hfull : bm (ptr / 8) = 0xFF#8)
    (hfree : bm.test ppn = false)
    : Sweeps bm (ptr + 8) lim ppn ↔ Sweeps bm ptr lim ppn := by
  constructor
  . rintro ⟨hge, hreach⟩
    refine ⟨by omega, ?_⟩
    cases hreach with
    | inl hoff =>
      left
      omega
    | inr hnext =>
      obtain ⟨hlim, group, hgroup, hlt, hne⟩ := hnext
      exact Or.inr ⟨hlim, group, by omega, hlt, hne⟩
  . rintro ⟨hge, hreach⟩
    have hppn : ppn / 8 ≠ ptr / 8 := by
      intro heq
      apply byte_ne_of_free hfree
      rw [heq]
      exact hfull
    refine ⟨by omega, ?_⟩
    cases hreach with
    | inl hoff =>
      left
      omega
    | inr hnext =>
      obtain ⟨hlim, group, hgroup, hlt, hne⟩ := hnext
      have hgroup' : group ≠ ptr / 8 := by
        intro heq
        exact hne (heq ▸ hfull)
      exact Or.inr ⟨hlim, group, by omega, hlt, hne⟩

theorem sweepFinds_skip {bm : Bitmap} {ptr lim : Nat} (hfull : bm (ptr / 8) = 0xFF#8)
    : SweepFinds bm (ptr + 8) lim ↔ SweepFinds bm ptr lim := by
  apply exists_congr
  intro ppn
  exact and_congr_right (fun hfree => sweeps_skip hfull hfree)

/--
After a byte whose free pages all lie below the offset the scan finds what any byte wise scan finds.
-/
theorem sweeps_realign {bm : Bitmap} {ptr lim ppn : Nat} (hne : bm (ptr / 8) ≠ 0xFF#8)
    (hpassed : ∀ i, ptr % 8 ≤ i → i < 8 → (bm (ptr / 8)).getMsbD i = true) (hfree : bm.test ppn = false)
    : Sweeps bm (ptr + (8 - ptr % 8)) lim ppn ↔ Sweeps bm ptr lim ppn := by
  constructor
  . rintro ⟨hge, hreach⟩
    refine ⟨by omega, Or.inr ⟨?_, ptr / 8, by omega, by omega, hne⟩⟩
    cases hreach with
    | inl hoff => omega
    | inr hnext => exact hnext.1
  . rintro ⟨hge, hreach⟩
    have hppn : ppn / 8 ≠ ptr / 8 := by
      intro heq
      cases hreach with
      | inl hoff =>
        unfold Bitmap.test at hfree
        rw [heq, hpassed (ppn % 8) hoff.1 (by omega)] at hfree
        contradiction
      | inr hnext =>
        obtain ⟨_, group, _, _, _⟩ := hnext
        omega
    refine ⟨by omega, Or.inl ⟨by omega, ?_⟩⟩
    cases hreach with
    | inl hoff => omega
    | inr hnext => omega

theorem sweepFinds_realign {bm : Bitmap} {ptr lim : Nat} (hne : bm (ptr / 8) ≠ 0xFF#8)
    (hpassed : ∀ i, ptr % 8 ≤ i → i < 8 → (bm (ptr / 8)).getMsbD i = true)
    : SweepFinds bm (ptr + (8 - ptr % 8)) lim ↔ SweepFinds bm ptr lim := by
  apply exists_congr
  intro ppn
  exact and_congr_right (fun hfree => sweeps_realign hne hpassed hfree)

theorem endsFull_skip {bm : Bitmap} {ptr lim : Nat}
    : EndsFull bm (ptr + 8) lim ↔ EndsFull bm ptr lim := by
  unfold EndsFull
  rw [Nat.add_mod_right]

/--
A byte below `lim` that is not `0xFF` ends the scan of an aligned pointer.
-/
theorem endsFull_of_not_sweepFinds {bm : Bitmap} {ptr lim : Nat} (haligned : ptr % 8 = 0) (hlt : ptr < lim)
    (h : ¬SweepFinds bm ptr lim)
    : EndsFull bm ptr lim := by
  intro hlast
  by_cases hne : bm ((lim - 1) / 8) = 0xFF#8
  . exact hne
  . obtain ⟨ppn, hgroup, hfree⟩ := exists_free_of_byte_ne hne
    exact absurd ⟨ppn, hfree, by omega, Or.inl ⟨by omega, by omega⟩⟩ h

theorem endsFull_realign {bm : Bitmap} {ptr lim : Nat} (hlt : ptr < lim) (hne : bm (ptr / 8) ≠ 0xFF#8)
    (h : ¬SweepFinds bm (ptr + (8 - ptr % 8)) lim)
    : ptr + (8 - ptr % 8) < lim ∧ EndsFull bm (ptr + (8 - ptr % 8)) lim ↔ EndsFull bm ptr lim := by
  constructor
  . rintro ⟨_, hfull⟩ hlast
    apply hfull
    omega
  . intro hfull
    have hlt' : ptr + (8 - ptr % 8) < lim := by
      apply Nat.lt_of_not_le
      intro hle
      have hlast : (lim - 1) / 8 = ptr / 8 := by omega
      unfold EndsFull at hfull
      rw [hlast] at hfull
      exact hne (hfull (by omega))
    exact ⟨hlt', endsFull_of_not_sweepFinds (by omega) hlt' h⟩

end Pmm

namespace pmmAllocPage

open Pmm

/--
`go` hands out a page iff one of its two scans inspects a free one.
-/
theorem go_ne_null_iff (pmm : Pmm) (oldPgPtr upperLim : Nat) (hupper : upperLim < 2 ^ 20)
    (hold : pmm.pgLookupPtr < upperLim → oldPgPtr < 2 ^ 20)
    : (go pmm oldPgPtr upperLim).1 ≠ 0
        ↔
      pmm.pgLookupPtr < upperLim
        ∧
      (SweepFinds pmm.pmBitmap pmm.pgLookupPtr upperLim
        ∨
       (oldPgPtr ≠ lookupStart
         ∧ EndsFull pmm.pmBitmap pmm.pgLookupPtr upperLim
         ∧ SweepFinds pmm.pmBitmap lookupStart oldPgPtr)) := by
  fun_induction go pmm oldPgPtr upperLim with
  | case1 pmm oldPgPtr upperLim hlt chunk hchunk i pmm' hi =>
    have hgroup : pmm.pgLookupPtr >>> 3 = pmm.pgLookupPtr / 8 := Nat.shiftRight_eq_div_pow _ 3
    have hle := le_scanChunk chunk (pmm.pgLookupPtr % 8)
    have hbit : (pmm.pgLookupPtr + (i - pmm.pgLookupPtr % 8)) % 8 = i := by omega
    have hbyte : (pmm.pgLookupPtr + (i - pmm.pgLookupPtr % 8)) / 8 = pmm.pgLookupPtr / 8 := by omega
    have hfound : SweepFinds pmm.pmBitmap pmm.pgLookupPtr upperLim := by
      refine ⟨pmm.pgLookupPtr + (i - pmm.pgLookupPtr % 8), ?_, by omega, Or.inl ⟨by omega, by omega⟩⟩
      unfold Bitmap.test
      rw [hbyte, hbit, ← hgroup]
      exact scanChunk_stopped chunk _ hi
    have hne := shiftLeft_ne_null pmm'.pgLookupPtr pmm'.pgLookupPtr_pos (found_lt hlt hupper hi)
    exact ⟨fun _ => ⟨hlt, Or.inl hfound⟩, fun _ => hne⟩
  | case2 pmm oldPgPtr upperLim hlt chunk hchunk i pmm' hi ih =>
    have hgroup : pmm.pgLookupPtr >>> 3 = pmm.pgLookupPtr / 8 := Nat.shiftRight_eq_div_pow _ 3
    have hi8 : i = 8 := by
      have := scanChunk_le chunk (pmm.pgLookupPtr % 8) (by omega)
      omega
    have hne : pmm.pmBitmap (pmm.pgLookupPtr / 8) ≠ 0xFF#8 := by
      rw [← hgroup]
      exact hchunk
    have hpassed :
        ∀ j, pmm.pgLookupPtr % 8 ≤ j → j < 8 → (pmm.pmBitmap (pmm.pgLookupPtr / 8)).getMsbD j = true := by
      intro j hj hj8
      rw [← hgroup]
      exact scanChunk_passed chunk _ j hj (by omega) hj8
    have hrealign : SweepFinds pmm'.pmBitmap pmm'.pgLookupPtr upperLim
        ↔ SweepFinds pmm.pmBitmap pmm.pgLookupPtr upperLim := by
      have := @sweepFinds_realign _ _ upperLim hne hpassed
      simpa [pmm', hi8] using this
    rw [ih hupper (fun _ => hold hlt), hrealign]
    by_cases hfinds : SweepFinds pmm.pmBitmap pmm.pgLookupPtr upperLim
    . have hlt' : pmm'.pgLookupPtr < upperLim := by
        apply Nat.lt_of_not_le
        intro hle
        exact not_sweepFinds_of_le hle (hrealign.mpr hfinds)
      simp [hfinds, hlt, hlt']
    . have hends := endsFull_realign hlt hne (by simpa [pmm', hi8] using mt hrealign.mp hfinds)
      simp only [pmm', hi8, pgLookupPtr_advance, pmBitmap_advance, hfinds, hlt, false_or, true_and,
        ← hends]
      rw [and_assoc]
      exact and_left_comm
  | case3 pmm oldPgPtr upperLim hlt chunk hchunk pmm' hwrap ih =>
    have hfull : pmm.pmBitmap (pmm.pgLookupPtr / 8) = 0xFF#8 := by
      have hgroup : pmm.pgLookupPtr >>> 3 = pmm.pgLookupPtr / 8 := Nat.shiftRight_eq_div_pow _ 3
      rw [← hgroup]
      exact Decidable.not_not.mp hchunk
    have hfinds : ¬SweepFinds pmm.pmBitmap pmm.pgLookupPtr upperLim := by
      rw [← sweepFinds_skip hfull]
      exact not_sweepFinds_of_le hwrap.1
    have hends : EndsFull pmm.pmBitmap pmm.pgLookupPtr upperLim := by
      intro hlast
      have : (upperLim - 1) / 8 = pmm.pgLookupPtr / 8 := by
        have := hwrap.1
        simp only [pmm', pgLookupPtr_advance] at this
        omega
      rw [this]
      exact hfull
    rw [ih (hold hlt) (fun _ => by decide)]
    simp only [pmm', pgLookupPtr_rewind, pmBitmap_rewind, pmBitmap_advance, hfinds, hends, hlt,
      hwrap.2, ne_eq, not_true_eq_false, not_false_eq_true, false_and, or_false, false_or, true_and]
    constructor
    . exact fun h => h.2
    . intro h
      refine ⟨?_, h⟩
      apply Nat.lt_of_not_le
      intro hle
      exact not_sweepFinds_of_le hle h
  | case4 pmm oldPgPtr upperLim hlt chunk hchunk pmm' hwrap ih =>
    have hfull : pmm.pmBitmap (pmm.pgLookupPtr / 8) = 0xFF#8 := by
      have hgroup : pmm.pgLookupPtr >>> 3 = pmm.pgLookupPtr / 8 := Nat.shiftRight_eq_div_pow _ 3
      rw [← hgroup]
      exact Decidable.not_not.mp hchunk
    rw [ih hupper (fun _ => hold hlt)]
    simp only [pmm', pgLookupPtr_advance, pmBitmap_advance, sweepFinds_skip hfull, endsFull_skip, hlt,
      true_and]
    by_cases hlt' : pmm.pgLookupPtr + 8 < upperLim
    . simp [hlt']
    . have hold' : oldPgPtr = lookupStart := by
        by_contra hne
        exact hwrap ⟨Nat.le_of_not_lt hlt', hne⟩
      have hfinds : ¬SweepFinds pmm.pmBitmap pmm.pgLookupPtr upperLim := by
        rw [← sweepFinds_skip hfull]
        exact not_sweepFinds_of_le (Nat.le_of_not_lt hlt')
      simp [hlt', hfinds, hold']
  | case5 pmm oldPgPtr upperLim hlt => simp [hlt]

end pmmAllocPage

end AwaOS
