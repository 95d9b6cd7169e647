import AwaOS.Pmm.Impl

/-!
What the functions of `pmm.c` do to the bits of the bitmap.
-/

namespace AwaOS

@[simp]
theorem Pmm.occupied_setBitmap (pmm : Pmm) (bm : Bitmap) (ppn : Nat)
    : (pmm.setBitmap bm).occupied ppn = bm.test ppn := by
  rfl

@[simp]
theorem Pmm.pmBitmap_setBitmap (pmm : Pmm) (bm : Bitmap) : (pmm.setBitmap bm).pmBitmap = bm := by
  rfl

@[simp]
theorem Pmm.maxPg_setBitmap (pmm : Pmm) (bm : Bitmap) : (pmm.setBitmap bm).maxPg = pmm.maxPg := by
  rfl

@[simp]
theorem Pmm.pmBitmap_advance (pmm : Pmm) (n : Nat) : (pmm.advance n).pmBitmap = pmm.pmBitmap := by
  rfl

@[simp]
theorem Pmm.pgLookupPtr_advance (pmm : Pmm) (n : Nat)
    : (pmm.advance n).pgLookupPtr = pmm.pgLookupPtr + n := by
  rfl

@[simp]
theorem Pmm.maxPg_advance (pmm : Pmm) (n : Nat) : (pmm.advance n).maxPg = pmm.maxPg := by
  rfl

@[simp]
theorem Pmm.pmBitmap_rewind (pmm : Pmm) : pmm.rewind.pmBitmap = pmm.pmBitmap := by
  rfl

@[simp]
theorem Pmm.pgLookupPtr_rewind (pmm : Pmm) : pmm.rewind.pgLookupPtr = lookupStart := by
  rfl

@[simp]
theorem Pmm.maxPg_rewind (pmm : Pmm) : pmm.rewind.maxPg = pmm.maxPg := by
  rfl

@[simp]
theorem occupied_pmmMarkPageFree (pmm : Pmm) (page : Word) (ppn : Nat)
    : (pmmMarkPageFree pmm page).occupied ppn = (decide (ppn ≠ page.toNat) && pmm.occupied ppn) := by
  unfold pmmMarkPageFree
  simp [Pmm.occupied]

@[simp]
theorem occupied_pmmMarkPageOccupied (pmm : Pmm) (page : Word) (ppn : Nat)
    : (pmmMarkPageOccupied pmm page).occupied ppn
        =
      (decide (ppn = page.toNat) || pmm.occupied ppn) := by
  unfold pmmMarkPageOccupied
  simp [Pmm.occupied]

@[simp]
theorem maxPg_pmmMarkPageFree (pmm : Pmm) (page : Word)
    : (pmmMarkPageFree pmm page).maxPg = pmm.maxPg := by
  rfl

@[simp]
theorem maxPg_pmmMarkPageOccupied (pmm : Pmm) (page : Word)
    : (pmmMarkPageOccupied pmm page).maxPg = pmm.maxPg := by
  rfl

@[simp]
theorem maxPg_pmmMarkChunkFree (pmm : Pmm) (startPpn pageCount : Word)
    : (pmmMarkChunkFree pmm startPpn pageCount).maxPg = pmm.maxPg := by
  rfl

@[simp]
theorem maxPg_pmmMarkChunkOccupied (pmm : Pmm) (startPpn pageCount : Word)
    : (pmmMarkChunkOccupied pmm startPpn pageCount).maxPg = pmm.maxPg := by
  rfl

theorem fillBytes_apply (bm : Bitmap) (group : Nat) (byte : BitVec 8) (n i : Nat)
    : fillBytes bm group byte n i = if group ≤ i ∧ i < group + n then byte else bm i := by
  induction n generalizing bm group with
  | zero =>
    have : ¬(group ≤ i ∧ i < group + 0) := by omega
    simp only [fillBytes, this, ↓reduceIte]
  | succ n ih =>
    simp only [fillBytes]
    rw [ih]
    by_cases hi : i = group
    . subst hi
      simp
    . have hiff : (group + 1 ≤ i ∧ i < group + 1 + n) ↔ (group ≤ i ∧ i < group + (n + 1)) := by omega
      rw [if_congr hiff rfl rfl, Function.update_of_ne hi]

theorem occupied_pmmInit (pmBitmap : Bitmap) (memUpperLim : Word) (ppn : Nat) (hppn : ppn < 2 ^ 20)
    : (pmmInit pmBitmap memUpperLim).occupied ppn = true := by
  have hgroup : 0 ≤ ppn / 8 ∧ ppn / 8 < 0 + Pmm.bmpMaxSize := by
    simp only [Pmm.bmpMaxSize]
    omega
  unfold Pmm.occupied Bitmap.test pmmInit
  dsimp
  rw [fillBytes_apply]
  simp only [hgroup, and_self, ↓reduceIte]
  apply Bitmap.getMsbD_allOnes_byte
  omega

theorem scanChunk_le (chunk : BitVec 8) (i : Nat) (hi : i ≤ 8) : scanChunk chunk i ≤ 8 := by
  unfold scanChunk
  split
  . split
    . omega
    . apply scanChunk_le
      omega
  . omega
termination_by 8 - i

/--
The bits that the inner loop of `pmm_alloc_page` passes are all set.
-/
theorem scanChunk_passed (chunk : BitVec 8) (i j : Nat) (hi : i ≤ j) (hj : j < scanChunk chunk i) (hj8 : j < 8)
    : chunk.getMsbD j = true := by
  unfold scanChunk at hj
  have hi8 : i < 8 := by omega
  simp only [hi8, ↓reduceIte] at hj
  split at hj
  . omega
  . next hbit =>
    rw [Bitmap.bit_and_eq_zero chunk hi8] at hbit
    cases Nat.eq_or_lt_of_le hi with
    | inl heq => simpa [heq] using hbit
    | inr hlt => exact scanChunk_passed chunk (i + 1) j hlt hj hj8
termination_by 8 - i

/--
Where the inner loop stops before the end of the byte, the bit is clear.
-/
theorem scanChunk_stopped (chunk : BitVec 8) (i : Nat) (h : scanChunk chunk i < 8)
    : chunk.getMsbD (scanChunk chunk i) = false := by
  unfold scanChunk at *
  split at h
  . next hi8 =>
    simp only [hi8, ↓reduceIte]
    split at h
    . next hbit =>
      simp only [hbit, ↓reduceIte]
      rwa [Bitmap.bit_and_eq_zero chunk hi8] at hbit
    . next hbit =>
      simp only [hbit, ↓reduceIte]
      apply scanChunk_stopped
      exact h
  . omega
termination_by 8 - i

/--
A page number that the scan can reach makes an address other than `NULL`.
-/
theorem shiftLeft_ne_null (ppn : Nat) (hpos : 0 < ppn) (hlt : ppn < 2 ^ 20)
    : BitVec.ofNat 32 (ppn <<< 12) ≠ 0 := by
  intro h
  have := congrArg BitVec.toNat h
  simp only [BitVec.toNat_ofNat, Nat.shiftLeft_eq, Nat.reducePow, BitVec.ofNat_eq_ofNat,
    Nat.zero_mod] at this
  omega

theorem toNat_ppnAddr (ppn : Nat) (hlt : ppn < 2 ^ 20)
    : (BitVec.ofNat 32 (ppn <<< 12) >>> 12).toNat = ppn := by
  simp only [BitVec.toNat_ushiftRight, BitVec.toNat_ofNat, Nat.shiftLeft_eq,
    Nat.shiftRight_eq_div_pow, Nat.reducePow]
  omega

end AwaOS
