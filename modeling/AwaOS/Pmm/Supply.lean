import AwaOS.Pmm.RoundTrip

/-!
When `pmm_alloc_page` succeeds several times in a row.
-/

namespace AwaOS

namespace Pmm

/--
The next `n` calls of `pmm_alloc_page` succeed.
-/
def Supplies (pmm : Pmm) : Nat → Prop
  | 0 => True
  | n + 1 => (pmmAllocPage pmm).1 ≠ 0 ∧ Supplies (pmmAllocPage pmm).2 n

theorem Supplies.mono {pmm : Pmm} {n k : Nat} (h : pmm.Supplies n) (hle : k ≤ n) : pmm.Supplies k := by
  induction k generalizing pmm n with
  | zero => trivial
  | succ k ih =>
    cases n with
    | zero => omega
    | succ n => exact ⟨h.1, ih h.2 (by omega)⟩

/--
The state after `n` calls of `pmm_alloc_page`.
-/
def afterAllocs (pmm : Pmm) : Nat → Pmm
  | 0 => pmm
  | n + 1 => (pmmAllocPage pmm).2.afterAllocs n

theorem afterAllocs_add (pmm : Pmm) (n k : Nat)
    : pmm.afterAllocs (n + k) = (pmm.afterAllocs n).afterAllocs k := by
  induction n generalizing pmm with
  | zero => rw [Nat.zero_add, afterAllocs]
  | succ n ih => rw [Nat.add_right_comm, afterAllocs, afterAllocs, ih]

theorem supplies_add (pmm : Pmm) (n k : Nat)
    : pmm.Supplies (n + k) ↔ pmm.Supplies n ∧ (pmm.afterAllocs n).Supplies k := by
  induction n generalizing pmm with
  | zero =>
    rw [Nat.zero_add]
    exact ⟨fun h => ⟨trivial, h⟩, And.right⟩
  | succ n ih =>
    rw [Nat.add_right_comm]
    change ((pmmAllocPage pmm).1 ≠ 0 ∧ (pmmAllocPage pmm).2.Supplies (n + k)) ↔
      ((pmmAllocPage pmm).1 ≠ 0 ∧ (pmmAllocPage pmm).2.Supplies n)
        ∧ ((pmmAllocPage pmm).2.afterAllocs n).Supplies k
    rw [ih, and_assoc]

theorem occupied_afterAllocs (pmm : Pmm) (n : Nat) {ppn : Nat} (h : pmm.occupied ppn = true)
    : (pmm.afterAllocs n).occupied ppn = true := by
  induction n generalizing pmm with
  | zero => exact h
  | succ n ih => exact ih _ (pmmAllocPage_keeps_occupied pmm h)

theorem maxPg_pmmAllocPage (pmm : Pmm) : (pmmAllocPage pmm).2.maxPg = pmm.maxPg := by
  by_cases hnull : (pmmAllocPage pmm).1 = 0
  . exact (pmmAllocPage_null pmm hnull).maxPg
  . exact (pmmAllocPage_took pmm hnull).maxPg

theorem maxPg_afterAllocs (pmm : Pmm) (n : Nat) : (pmm.afterAllocs n).maxPg = pmm.maxPg := by
  induction n generalizing pmm with
  | zero => rfl
  | succ n ih => rw [afterAllocs, ih, maxPg_pmmAllocPage]

/--
The first page after the byte of `pg_lookup_ptr`.
-/
def byteEnd (pmm : Pmm) : Nat :=
  pmm.pgLookupPtr / 8 * 8 + 8

/--
In the byte of `pg_lookup_ptr`, the pages from `next` on are free, and those before are not.
-/
structure Pool (pmm : Pmm) (next : Nat) : Prop where
  le : pmm.pgLookupPtr ≤ next
  byteEnd_le : pmm.byteEnd ≤ pmm.maxPg
  taken : ∀ ppn, pmm.pgLookupPtr ≤ ppn → ppn < next → pmm.occupied ppn = true
  free : ∀ ppn, next ≤ ppn → ppn < pmm.byteEnd → pmm.occupied ppn = false

variable {pmm : Pmm} {next : Nat}

theorem Pool.scanChunk_eq (h : pmm.Pool next) (hlt : next < pmm.byteEnd)
    : scanChunk (pmm.pmBitmap (pmm.pgLookupPtr >>> 3)) (pmm.pgLookupPtr % 8) = next % 8 := by
  have hle := h.le
  have hgroup : ∀ j, j < 8 → (pmm.pmBitmap (pmm.pgLookupPtr >>> 3)).getMsbD j
      = pmm.occupied (pmm.pgLookupPtr / 8 * 8 + j) := by
    intro j hj
    unfold occupied Bitmap.test
    rw [show (pmm.pgLookupPtr / 8 * 8 + j) / 8 = pmm.pgLookupPtr / 8 by omega,
      show (pmm.pgLookupPtr / 8 * 8 + j) % 8 = j by omega, Nat.shiftRight_eq_div_pow]
  unfold byteEnd at hlt
  have hnext := h.free next (Nat.le_refl _) hlt
  have hback : pmm.pgLookupPtr / 8 * 8 + next % 8 = next := by omega
  generalize pmm.pmBitmap (pmm.pgLookupPtr >>> 3) = chunk at hgroup ⊢
  have hge := le_scanChunk chunk (pmm.pgLookupPtr % 8)
  apply Nat.le_antisymm
  . by_contra hgt
    have hpassed := scanChunk_passed chunk (pmm.pgLookupPtr % 8) (next % 8) (by omega) (by omega) (by omega)
    rw [hgroup _ (by omega), hback, hnext] at hpassed
    contradiction
  . by_contra hgt
    have hstopped := scanChunk_stopped chunk (pmm.pgLookupPtr % 8) (by omega)
    rw [hgroup _ (by omega), h.taken _ (by omega) (by omega)] at hstopped
    contradiction

theorem Pool.pmmAllocPage_eq (h : pmm.Pool next) (hlt : next < pmm.byteEnd)
    : pmmAllocPage pmm
        =
      (BitVec.ofNat 32 (next <<< 12),
        pmmMarkPageOccupied (pmm.advance (next - pmm.pgLookupPtr)) (BitVec.ofNat 32 next)) := by
  have hle := h.le
  have hend := h.byteEnd_le
  have hscan := h.scanChunk_eq hlt
  unfold byteEnd at hlt hend
  have hchunk : pmm.pmBitmap (pmm.pgLookupPtr >>> 3) ≠ 0xFF#8 := by
    have hstopped := scanChunk_stopped (pmm.pmBitmap (pmm.pgLookupPtr >>> 3)) (pmm.pgLookupPtr % 8) (by omega)
    intro hfull
    rw [hscan, hfull, Bitmap.getMsbD_allOnes_byte (by omega)] at hstopped
    contradiction
  have hfound : pmm.pgLookupPtr + (next % 8 - pmm.pgLookupPtr % 8) = next := by omega
  have hadvance : next % 8 - pmm.pgLookupPtr % 8 = next - pmm.pgLookupPtr := by omega
  unfold pmmAllocPage pmmAllocPage.go
  rw [dif_pos (by omega)]
  dsimp only
  rw [if_pos hchunk, hscan, dif_pos (by omega), pgLookupPtr_advance, hfound, hadvance]

theorem Pool.allocated (h : pmm.Pool next) (hlt : next < pmm.byteEnd)
    : (pmmAllocPage pmm).1 ≠ 0
        ∧ (pmmAllocPage pmm).2.Pool (next + 1)
        ∧ (pmmAllocPage pmm).2.byteEnd = pmm.byteEnd := by
  have hle := h.le
  have hpos := pmm.pgLookupPtr_pos
  have hlimit := h.byteEnd_le
  have hmaxPg := pmm.maxPg_lt
  have htoNat : (BitVec.ofNat 32 next).toNat = next := by
    rw [BitVec.toNat_ofNat, Nat.mod_eq_of_lt (by omega)]
  have hptr : (pmmMarkPageOccupied (pmm.advance (next - pmm.pgLookupPtr)) (BitVec.ofNat 32 next)).pgLookupPtr
      = next := by
    change pmm.pgLookupPtr + (next - pmm.pgLookupPtr) = next
    omega
  have hend : (pmmMarkPageOccupied (pmm.advance (next - pmm.pgLookupPtr)) (BitVec.ofNat 32 next)).byteEnd
      = pmm.byteEnd := by
    unfold byteEnd at *
    rw [hptr]
    omega
  have hoccupied : ∀ ppn,
    (pmmMarkPageOccupied (pmm.advance (next - pmm.pgLookupPtr)) (BitVec.ofNat 32 next)).occupied ppn
      = (decide (ppn = next) || pmm.occupied ppn) := by
    intro ppn
    rw [occupied_pmmMarkPageOccupied, htoNat]
    rfl
  rw [h.pmmAllocPage_eq hlt]
  refine ⟨shiftLeft_ne_null next (by omega) (by omega), ?_, hend⟩
  constructor
  . rw [hptr]
    omega
  . rw [hend]
    exact hlimit
  . intro ppn hge hlt'
    rw [hptr] at hge
    have heq : ppn = next := by omega
    rw [hoccupied, decide_eq_true heq, Bool.true_or]
  . intro ppn hge hlt'
    rw [hend] at hlt'
    rw [hoccupied, decide_eq_false (by omega), Bool.false_or]
    exact h.free ppn (by omega) hlt'

theorem Pool.supplies (h : pmm.Pool next) (n : Nat) (hn : next + n ≤ pmm.byteEnd) : pmm.Supplies n := by
  induction n generalizing pmm next with
  | zero => trivial
  | succ n ih =>
    obtain ⟨hne, hpool, hend⟩ := h.allocated (by omega)
    exact ⟨hne, ih hpool (by omega)⟩

/--
`pg_lookup_ptr` is the page that was handed out last.
-/
theorem go_pgLookupPtr (pmm : Pmm) (oldPgPtr upperLim : Nat) (hupper : upperLim < 2 ^ 20)
    (hold : pmm.pgLookupPtr < upperLim → oldPgPtr < 2 ^ 20)
    (hne : (pmmAllocPage.go pmm oldPgPtr upperLim).1 ≠ 0)
    : (pmmAllocPage.go pmm oldPgPtr upperLim).2.pgLookupPtr
        =
      ((pmmAllocPage.go pmm oldPgPtr upperLim).1 >>> 12).toNat := by
  fun_induction pmmAllocPage.go pmm oldPgPtr upperLim with
  | case1 pmm oldPgPtr upperLim hlt chunk hchunk i pmm' hi =>
    have hfound : pmm'.pgLookupPtr < 2 ^ 20 := pmmAllocPage.found_lt hlt hupper hi
    simp only
    rw [toNat_ppnAddr _ hfound]
    rfl
  | case2 pmm oldPgPtr upperLim hlt chunk hchunk i pmm' hi ih => exact ih hupper (fun _ => hold hlt) hne
  | case3 pmm oldPgPtr upperLim hlt chunk hchunk pmm' hwrap ih => exact ih (hold hlt) (fun _ => by decide) hne
  | case4 pmm oldPgPtr upperLim hlt chunk hchunk pmm' hwrap ih => exact ih hupper (fun _ => hold hlt) hne
  | case5 pmm oldPgPtr upperLim hlt => exact absurd rfl hne

/--
If all pages from the byte `group` on are free, then each of the bytes gives at least one of them.
-/
theorem supplies_of_free {pmm : Pmm} {group n : Nat} (hptr : pmm.pgLookupPtr / 8 ≤ group)
    (hmax : 8 * (group + n) ≤ pmm.maxPg)
    (hfree : ∀ ppn, 8 * group ≤ ppn → ppn < pmm.maxPg → pmm.occupied ppn = false)
    : pmm.Supplies n := by
  induction n generalizing pmm group with
  | zero => trivial
  | succ n ih =>
    have hold : pmm.pgLookupPtr < pmm.maxPg → pmm.pgLookupPtr < 2 ^ 20 :=
      fun hlt => Nat.lt_trans hlt pmm.maxPg_lt
    -- the last page of a byte is scanned from every offset
    have hlast : Sweeps pmm.pmBitmap pmm.pgLookupPtr pmm.maxPg (8 * group + 7) :=
      ⟨by omega, Or.inl ⟨by omega, by omega⟩⟩
    have hlastFree : pmm.pmBitmap.test (8 * group + 7) = false := hfree (8 * group + 7) (by omega) (by omega)
    have hfinds : SweepFinds pmm.pmBitmap pmm.pgLookupPtr pmm.maxPg := ⟨_, hlastFree, hlast⟩
    have hne : (pmmAllocPage pmm).1 ≠ 0 :=
      (pmmAllocPage.go_ne_null_iff pmm _ _ pmm.maxPg_lt hold).mpr ⟨by omega, Or.inl hfinds⟩
    have htook := pmmAllocPage_took pmm hne
    have hmoved : (pmmAllocPage pmm).2.pgLookupPtr = _ := go_pgLookupPtr pmm _ _ pmm.maxPg_lt hold hne
    refine ⟨hne, ?_⟩
    cases pmmAllocPage.go_page pmm pmm.pgLookupPtr pmm.maxPg pmm.maxPg_lt hold hne with
    | inr hsecond => exact absurd hfinds hsecond.1
    | inl hfirst =>
      have hle : ((pmmAllocPage pmm).1 >>> 12).toNat ≤ 8 * group + 7 := hfirst.least _ hlastFree hlast
      refine @ih _ (group + 1) ?_ ?_ ?_
      . rw [hmoved]
        change ((pmmAllocPage pmm).1 >>> 12).toNat / 8 ≤ _
        omega
      . rw [maxPg_pmmAllocPage]
        omega
      . intro ppn hge hlt
        rw [maxPg_pmmAllocPage] at hlt
        unfold occupied
        rw [htook.bitmap, Bitmap.test_set, decide_eq_false (by omega), Bool.false_or]
        exact hfree ppn (by omega) hlt

end Pmm

end AwaOS
