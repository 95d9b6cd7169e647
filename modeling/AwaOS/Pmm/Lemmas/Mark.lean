import AwaOS.Pmm.Lemmas.Basic

/-!
Which pages `pmm_mark_chunk_free` and `pmm_mark_chunk_occupied` touch.
-/

namespace AwaOS

namespace MarkChunkAux

/--
The pages whose bits the three stores of `pmm_mark_chunk_*` write.
-/
def touches (aux : MarkChunkAux) (pageCount : Word) (ppn : Nat) : Bool :=
  let group := aux.group.toNat
  if ppn / 8 = group then
    aux.leadingMask.getMsbD (ppn % 8)
  else if group + 1 ≤ ppn / 8 ∧ ppn / 8 < group + 1 + aux.wholeBytes then
    true
  else if ppn / 8 = group + 1 + aux.wholeBytes then
    (aux.trailingMask pageCount).getMsbD (ppn % 8)
  else
    false

theorem leadingMask_getMsbD_of_le (aux : MarkChunkAux) (h : aux.offset.toNat + aux.leadingShifts.toNat ≤ 8)
    (j : Nat) (hj : j < 8)
    : aux.leadingMask.getMsbD j
        =
      decide (aux.offset.toNat ≤ j ∧ j < aux.offset.toNat + aux.leadingShifts.toNat) := by
  have masks : ∀ o, o < 9 → ∀ k, k < 9 → o + k ≤ 8 → ∀ j, j < 8 →
      ((((1#32 <<< BitVec.ofNat 32 k) - 1) <<< (8 - BitVec.ofNat 32 o - BitVec.ofNat 32 k)).setWidth 8).getMsbD j
        =
      decide (o ≤ j ∧ j < o + k) := by
    decide +kernel
  have := masks aux.offset.toNat (by omega) aux.leadingShifts.toNat (by omega) h j hj
  simpa [leadingMask] using this

/--
A `page_count` close to `2 ^ 32` shifts the one out of the word.
-/
theorem leadingMask_getMsbD_of_huge (aux : MarkChunkAux) (h : 32 ≤ aux.leadingShifts.toNat) (n : Nat)
    (hn : n < 8) (hshift : 8 - aux.offset - aux.leadingShifts = BitVec.ofNat 32 (8 - n))
    (j : Nat) (hj : j < 8)
    : aux.leadingMask.getMsbD j = decide (j < n) := by
  have masks : ∀ n, n < 8 → ∀ j, j < 8 →
      (((0#32 - 1) <<< BitVec.ofNat 32 (8 - n)).setWidth 8).getMsbD j = decide (j < n) := by
    decide +kernel
  have hzero : 1#32 <<< aux.leadingShifts = 0#32 := by
    rw [BitVec.shiftLeft_eq']
    exact BitVec.shiftLeft_eq_zero h
  unfold leadingMask
  rw [hzero, hshift]
  exact masks n hn j hj

theorem trailingMask_getMsbD (aux : MarkChunkAux) (pageCount : Word) (h : aux.remainder.toNat < 8)
    (j : Nat) (hj : j < 8)
    : (aux.trailingMask pageCount).getMsbD j = decide (8 < pageCount.toNat ∧ j < aux.remainder.toNat) := by
  have masks : ∀ r, r < 8 → ∀ j, j < 8 →
      ((((1#32 <<< BitVec.ofNat 32 r) - 1) <<< (8 - BitVec.ofNat 32 r)).setWidth 8).getMsbD j = decide
        (j < r) := by
    decide +kernel
  have := masks aux.remainder.toNat h j hj
  unfold trailingMask
  by_cases hcount : 8 < pageCount
  . have hcount' : 8 < pageCount.toNat := by simpa [BitVec.lt_def] using hcount
    simp only [hcount, hcount', ↓reduceIte, true_and]
    simpa using this
  . have hcount' : ¬8 < pageCount.toNat := by simpa [BitVec.lt_def] using hcount
    have hzero : (1#32 <<< (0 : Word)) - 1 = 0#32 := by decide
    simp only [hcount, hcount', ↓reduceIte, false_and, decide_false, hzero]
    simp

end MarkChunkAux

theorem markChunkAuxVar_group (startPpn pageCount : Word)
    : (markChunkAuxVar startPpn pageCount).group.toNat = startPpn.toNat / 8 := by
  simp [markChunkAuxVar]

theorem markChunkAuxVar_offset (startPpn pageCount : Word)
    : (markChunkAuxVar startPpn pageCount).offset.toNat = startPpn.toNat % 8 := by
  simp [markChunkAuxVar]

theorem markChunkAuxVar_remainder (startPpn pageCount : Word)
    : (markChunkAuxVar startPpn pageCount).remainder.toNat
        =
      (pageCount.toNat + startPpn.toNat % 8) % 2 ^ 32 % 8 := by
  simp [markChunkAuxVar]

theorem markChunkAuxVar_wholeBytes (startPpn pageCount : Word)
    : (markChunkAuxVar startPpn pageCount).wholeBytes
        =
      (pageCount.toNat + startPpn.toNat % 8) % 2 ^ 32 / 8 - 1 := by
  simp [markChunkAuxVar, MarkChunkAux.wholeBytes]

theorem markChunkAuxVar_leadingShifts (startPpn pageCount : Word)
    : (markChunkAuxVar startPpn pageCount).leadingShifts.toNat
        =
      if (pageCount.toNat + startPpn.toNat % 8) % 2 ^ 32 < 8 then
        pageCount.toNat
      else
        8 - startPpn.toNat % 8 := by
  have hsub : (8 - startPpn % 8).toNat = 8 - startPpn.toNat % 8 := by
    rw [BitVec.toNat_sub_of_le]
    . simp
    . simp only [BitVec.le_def, BitVec.toNat_umod, BitVec.ofNat_eq_ofNat, BitVec.toNat_ofNat,
        Nat.reducePow, Nat.reduceMod]
      omega
  simp only [markChunkAuxVar, BitVec.lt_def, BitVec.toNat_add, BitVec.toNat_umod,
    BitVec.ofNat_eq_ofNat, BitVec.toNat_ofNat, Nat.reduceMod, Nat.reducePow]
  split
  . rfl
  . exact hsub

/--
The bit of page `ppn` after the three stores of `pmm_mark_chunk_*`.
-/
theorem test_markChunk (bm : Bitmap) (group n : Nat) (byte : BitVec 8) (lead trail : BitVec 8 → BitVec 8)
    (ppn : Nat)
    : let filled := fillBytes (Function.update bm group (lead (bm group))) (group + 1) byte n
      Bitmap.test (Function.update filled (group + 1 + n) (trail (filled (group + 1 + n)))) ppn
        =
      if ppn / 8 = group then
        (lead (bm (ppn / 8))).getMsbD (ppn % 8)
      else if group + 1 ≤ ppn / 8 ∧ ppn / 8 < group + 1 + n then
        byte.getMsbD (ppn % 8)
      else if ppn / 8 = group + 1 + n then
        (trail (bm (ppn / 8))).getMsbD (ppn % 8)
      else
        bm.test ppn := by
  intro filled
  have hfilled : ∀ i, filled i = if group + 1 ≤ i ∧ i < group + 1 + n then byte
      else Function.update bm group (lead (bm group)) i := by
    intro i
    apply fillBytes_apply
  unfold Bitmap.test
  by_cases hlast : ppn / 8 = group + 1 + n
  . have hne : ¬(group + 1 + n = group) := by omega
    have hrange : ¬(group + 1 ≤ group + 1 + n ∧ group + 1 + n < group + 1 + n) := by omega
    simp only [hlast, Function.update_self, hfilled, hne, hrange, ↓reduceIte, ne_eq,
      not_false_eq_true, Function.update_of_ne]
  . rw [Function.update_of_ne hlast, hfilled]
    by_cases hfirst : ppn / 8 = group
    . have hrange : ¬(group + 1 ≤ group ∧ group < group + 1 + n) := by omega
      simp only [hfirst, hrange, ↓reduceIte, Function.update_self]
    . simp only [hfirst, hlast, ↓reduceIte, ne_eq, not_false_eq_true, Function.update_of_ne]
      split
      . rfl
      . rfl

theorem occupied_pmmMarkChunkFree (pmm : Pmm) (startPpn pageCount : Word) (ppn : Nat)
    : (pmmMarkChunkFree pmm startPpn pageCount).occupied ppn
        =
      (pmm.occupied ppn && !(markChunkAuxVar startPpn pageCount).touches pageCount ppn) := by
  have hppn : ppn % 8 < 8 := by omega
  unfold pmmMarkChunkFree
  dsimp only
  rw [Pmm.occupied_setBitmap,
    test_markChunk _ _ _ _ (fun b => b &&& ~~~(markChunkAuxVar startPpn pageCount).leadingMask)
    (fun b => b &&& ~~~(markChunkAuxVar startPpn pageCount).trailingMask pageCount)]
  generalize markChunkAuxVar startPpn pageCount = aux
  unfold MarkChunkAux.touches Pmm.occupied Bitmap.test
  dsimp only
  split
  . simp [hppn]
  . split
    . simp
    . split
      . simp [hppn]
      . simp

theorem occupied_pmmMarkChunkOccupied (pmm : Pmm) (startPpn pageCount : Word) (ppn : Nat)
    : (pmmMarkChunkOccupied pmm startPpn pageCount).occupied ppn
        =
      (pmm.occupied ppn || (markChunkAuxVar startPpn pageCount).touches pageCount ppn) := by
  have hppn : ppn % 8 < 8 := by omega
  unfold pmmMarkChunkOccupied
  dsimp only
  rw [Pmm.occupied_setBitmap,
    test_markChunk _ _ _ _ (fun b => b ||| (markChunkAuxVar startPpn pageCount).leadingMask)
    (fun b => b ||| (markChunkAuxVar startPpn pageCount).trailingMask pageCount)]
  generalize markChunkAuxVar startPpn pageCount = aux
  unfold MarkChunkAux.touches Pmm.occupied Bitmap.test
  dsimp only
  split
  . simp
  . split
    . simp [Bitmap.getMsbD_allOnes_byte hppn]
    . split
      . simp
      . simp

/--
Page `ppn` is one of the page numbers `startPpn`, `startPpn + 1`, ... that a range of `pageCount`
pages consists of. Page numbers are 32 bit words, so a range that is long enough wraps around.
-/
def chunkCovers (startPpn pageCount : Word) (ppn : Nat) : Bool :=
  BitVec.ofNat 32 ppn - startPpn < pageCount

theorem chunkCovers_iff (startPpn pageCount : Word) (ppn : Nat)
    : chunkCovers startPpn pageCount ppn = true
        ↔
      (2 ^ 32 - startPpn.toNat + ppn) % 2 ^ 32 < pageCount.toNat := by
  simp [chunkCovers, BitVec.lt_def, BitVec.toNat_sub]

theorem leadingMask_covers (startPpn pageCount : Word) (ppn : Nat)
    (hgroup : ppn / 8 = startPpn.toNat / 8)
    (h : (markChunkAuxVar startPpn pageCount).leadingMask.getMsbD (ppn % 8) = true)
    : chunkCovers startPpn pageCount ppn = true := by
  have hstart := startPpn.isLt
  have hcount := pageCount.isLt
  have hoffset := markChunkAuxVar_offset startPpn pageCount
  have hshifts := markChunkAuxVar_leadingShifts startPpn pageCount
  rw [chunkCovers_iff]
  by_cases hwrap : pageCount.toNat + startPpn.toNat % 8 < 2 ^ 32
  . rw [Nat.mod_eq_of_lt hwrap] at hshifts
    rw [MarkChunkAux.leadingMask_getMsbD_of_le] at h
    . simp only [hoffset, hshifts, decide_eq_true_eq] at h
      split at h
      . omega
      . omega
    . rw [hoffset, hshifts]
      split
      . omega
      . omega
    . omega
  . have hshort : (pageCount.toNat + startPpn.toNat % 8) % 2 ^ 32 < 8 := by omega
    rw [if_pos hshort] at hshifts
    rw [MarkChunkAux.leadingMask_getMsbD_of_huge _ (by omega) _ hshort] at h
    . simp only [decide_eq_true_eq] at h
      omega
    . apply BitVec.eq_of_toNat_eq
      simp only [BitVec.toNat_sub, hoffset, hshifts, BitVec.toNat_ofNat, BitVec.ofNat_eq_ofNat]
      omega
    . omega

theorem touches_chunkCovers (startPpn pageCount : Word) (ppn : Nat) (hppn : ppn < 2 ^ 32)
    (h : (markChunkAuxVar startPpn pageCount).touches pageCount ppn = true)
    : chunkCovers startPpn pageCount ppn = true := by
  have hstart := startPpn.isLt
  have hcount := pageCount.isLt
  simp only [MarkChunkAux.touches, markChunkAuxVar_group, markChunkAuxVar_wholeBytes] at h
  split at h
  . next hgroup => exact leadingMask_covers startPpn pageCount ppn hgroup h
  . rw [chunkCovers_iff]
    split at h
    . omega
    . split at h
      . rw [MarkChunkAux.trailingMask_getMsbD] at h
        . simp only [markChunkAuxVar_remainder, decide_eq_true_eq] at h
          omega
        . rw [markChunkAuxVar_remainder]
          omega
        . omega
      . contradiction

end AwaOS
