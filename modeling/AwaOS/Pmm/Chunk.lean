import AwaOS.Pmm.Lemmas.Mark

/-!
Marking a range of pages, compared with marking its pages one by one. A range of at most 8 pages that goes
on into a second byte of the bitmap is only marked in the first one.
-/

namespace AwaOS

/--
`pmm_mark_page_free` on each of `count` pages from `startPpn` on.
-/
def pmmMarkPagesFree (pmm : Pmm) (startPpn : Word) : Nat → Pmm
  | 0 => pmm
  | count + 1 => pmmMarkPagesFree (pmmMarkPageFree pmm startPpn) (startPpn + 1) count

/--
`pmm_mark_page_occupied` on each of `count` pages from `startPpn` on.
-/
def pmmMarkPagesOccupied (pmm : Pmm) (startPpn : Word) : Nat → Pmm
  | 0 => pmm
  | count + 1 => pmmMarkPagesOccupied (pmmMarkPageOccupied pmm startPpn) (startPpn + 1) count

/--
The pages of a set are marked, as occupied or as free, and no other page is.
-/
structure Marked (pmm : Pmm) (occupied : Bool) (pages : Nat → Prop) (pmm' : Pmm) : Prop where
  marked : ∀ ppn, pages ppn → pmm'.occupied ppn = occupied
  kept : ∀ ppn, ¬pages ppn → pmm'.occupied ppn = pmm.occupied ppn

theorem Marked.bitmap_eq_iff {pmm pmm₁ pmm₂ : Pmm} {occupied : Bool} {pages₁ pages₂ : Nat → Prop}
    (h₁ : Marked pmm occupied pages₁ pmm₁) (h₂ : Marked pmm occupied pages₂ pmm₂)
    (hsub : ∀ ppn, pages₁ ppn → pages₂ ppn)
    : pmm₁.pmBitmap = pmm₂.pmBitmap ↔ ∀ ppn, pages₂ ppn → ¬pages₁ ppn → pmm.occupied ppn = occupied := by
  constructor
  . intro heq ppn hin hout
    have hbit : pmm₁.occupied ppn = pmm₂.occupied ppn := congrArg (Bitmap.test · ppn) heq
    rw [← h₁.kept ppn hout, hbit, h₂.marked ppn hin]
  . intro hmissed
    apply Bitmap.ext
    intro ppn
    change pmm₁.occupied ppn = pmm₂.occupied ppn
    by_cases hin₂ : pages₂ ppn
    . rw [h₂.marked ppn hin₂]
      by_cases hin₁ : pages₁ ppn
      . exact h₁.marked ppn hin₁
      . rw [h₁.kept ppn hin₁]
        exact hmissed ppn hin₂ hin₁
    . rw [h₂.kept ppn hin₂, h₁.kept ppn (mt (hsub ppn) hin₂)]

/--
The pages `start`, ..., `start + count - 1`.
-/
def inRange (start count ppn : Nat) : Prop :=
  start ≤ ppn ∧ ppn < start + count

theorem toNat_succ (ppn : Word) (h : ppn.toNat + 1 < 2 ^ 32) : (ppn + 1).toNat = ppn.toNat + 1 := by
  rw [BitVec.toNat_add]
  exact Nat.mod_eq_of_lt h

theorem marked_pmmMarkPagesFree (pmm : Pmm) (startPpn : Word) (count : Nat)
    (h : startPpn.toNat + count < 2 ^ 32)
    : Marked pmm false (inRange startPpn.toNat count) (pmmMarkPagesFree pmm startPpn count) := by
  unfold inRange
  induction count generalizing pmm startPpn with
  | zero => exact ⟨fun ppn hppn => by omega, fun _ _ => rfl⟩
  | succ count ih =>
    have hsucc := toNat_succ startPpn (by omega)
    have hrest := ih (pmmMarkPageFree pmm startPpn) (startPpn + 1) (by omega)
    rw [hsucc] at hrest
    constructor
    . intro ppn hppn
      by_cases hfirst : ppn = startPpn.toNat
      . rw [pmmMarkPagesFree, hrest.kept ppn (by omega), occupied_pmmMarkPageFree]
        simp [hfirst]
      . exact hrest.marked ppn (by omega)
    . intro ppn hppn
      have hne : ppn ≠ startPpn.toNat := by omega
      rw [pmmMarkPagesFree, hrest.kept ppn (by omega), occupied_pmmMarkPageFree]
      simp [hne]

theorem marked_pmmMarkPagesOccupied (pmm : Pmm) (startPpn : Word) (count : Nat)
    (h : startPpn.toNat + count < 2 ^ 32)
    : Marked pmm true (inRange startPpn.toNat count) (pmmMarkPagesOccupied pmm startPpn count) := by
  unfold inRange
  induction count generalizing pmm startPpn with
  | zero => exact ⟨fun ppn hppn => by omega, fun _ _ => rfl⟩
  | succ count ih =>
    have hsucc := toNat_succ startPpn (by omega)
    have hrest := ih (pmmMarkPageOccupied pmm startPpn) (startPpn + 1) (by omega)
    rw [hsucc] at hrest
    constructor
    . intro ppn hppn
      by_cases hfirst : ppn = startPpn.toNat
      . rw [pmmMarkPagesOccupied, hrest.kept ppn (by omega), occupied_pmmMarkPageOccupied]
        simp [hfirst]
      . exact hrest.marked ppn (by omega)
    . intro ppn hppn
      have hne : ppn ≠ startPpn.toNat := by omega
      rw [pmmMarkPagesOccupied, hrest.kept ppn (by omega), occupied_pmmMarkPageOccupied]
      simp [hne]

/--
The pages of a range that `pmm_mark_chunk_*` reaches: those of its first byte, and the others if there are
more than 8 pages.
-/
def chunkReaches (start count ppn : Nat) : Prop :=
  inRange start count ppn ∧ (8 < count ∨ ppn / 8 = start / 8)

theorem touches_iff {startPpn pageCount : Word} (h : startPpn.toNat + pageCount.toNat < 2 ^ 32 - 8) (ppn : Nat)
    : (markChunkAuxVar startPpn pageCount).touches pageCount ppn = true
        ↔
      chunkReaches startPpn.toNat pageCount.toNat ppn := by
  have hwrap : (pageCount.toNat + startPpn.toNat % 8) % 2 ^ 32 = pageCount.toNat + startPpn.toNat % 8 := by
    apply Nat.mod_eq_of_lt
    omega
  have hoffset := markChunkAuxVar_offset startPpn pageCount
  have hshifts := markChunkAuxVar_leadingShifts startPpn pageCount
  have hremainder := markChunkAuxVar_remainder startPpn pageCount
  rw [hwrap] at hshifts hremainder
  have hshort : startPpn.toNat % 8 + (markChunkAuxVar startPpn pageCount).leadingShifts.toNat ≤ 8 := by
    rw [hshifts]
    split
    . omega
    . omega
  simp only [MarkChunkAux.touches, markChunkAuxVar_group, markChunkAuxVar_wholeBytes, hwrap, chunkReaches,
    inRange]
  split
  . next hfirst =>
    rw [MarkChunkAux.leadingMask_getMsbD_of_le _ (by omega) _ (by omega), hoffset, hshifts, decide_eq_true_eq]
    split
    . omega
    . omega
  . split
    . next hwhole =>
      have : pageCount.toNat + startPpn.toNat % 8 ≥ 16 := by omega
      simp only [true_iff]
      omega
    . split
      . next hlast =>
        rw [MarkChunkAux.trailingMask_getMsbD _ _ (by omega) _ (by omega), hremainder, decide_eq_true_eq]
        omega
      . next hother =>
        simp only [Bool.false_eq_true, false_iff]
        omega

section Chunk

variable (pmm : Pmm) (startPpn pageCount : Word)

theorem marked_pmmMarkChunkFree (h : startPpn.toNat + pageCount.toNat < 2 ^ 32 - 8)
    : Marked pmm false (chunkReaches startPpn.toNat pageCount.toNat) (pmmMarkChunkFree pmm startPpn pageCount) := by
  constructor
  . intro ppn hppn
    rw [occupied_pmmMarkChunkFree, (touches_iff h ppn).mpr hppn]
    simp
  . intro ppn hppn
    rw [occupied_pmmMarkChunkFree, Bool.eq_false_iff.mpr (mt (touches_iff h ppn).mp hppn)]
    simp

theorem marked_pmmMarkChunkOccupied (h : startPpn.toNat + pageCount.toNat < 2 ^ 32 - 8)
    : Marked pmm true (chunkReaches startPpn.toNat pageCount.toNat) (pmmMarkChunkOccupied pmm startPpn pageCount) := by
  constructor
  . intro ppn hppn
    rw [occupied_pmmMarkChunkOccupied, (touches_iff h ppn).mpr hppn]
    simp
  . intro ppn hppn
    rw [occupied_pmmMarkChunkOccupied, Bool.eq_false_iff.mpr (mt (touches_iff h ppn).mp hppn)]
    simp

end Chunk

/--
The pages that `pmm_mark_chunk_*` passes over are marked as wanted already: there are none, or they lie in
the second byte of a range of at most 8 pages.
-/
def PassedOverMarked (pmm : Pmm) (occupied : Bool) (start count : Nat) : Prop :=
  8 < count ∨ ∀ ppn, inRange start count ppn → ppn / 8 ≠ start / 8 → pmm.occupied ppn = occupied

/--
The effect on a range is that of marking its pages one by one, and there is no other.
-/
def MarksPages (pmm chunk pages : Pmm) (start count : Nat) : Prop :=
  chunk.pmBitmap = pages.pmBitmap ∧ ∀ ppn, ¬inRange start count ppn → chunk.occupied ppn = pmm.occupied ppn

theorem Marked.marksPages_iff {pmm chunk pages : Pmm} {occupied : Bool} {start count : Nat}
    (hchunk : Marked pmm occupied (chunkReaches start count) chunk)
    (hpages : Marked pmm occupied (inRange start count) pages)
    : MarksPages pmm chunk pages start count ↔ PassedOverMarked pmm occupied start count := by
  have hothers : ∀ ppn, ¬inRange start count ppn → chunk.occupied ppn = pmm.occupied ppn :=
    fun ppn hppn => hchunk.kept ppn (fun hreaches => hppn hreaches.left)
  unfold MarksPages PassedOverMarked
  rw [and_iff_left hothers, hchunk.bitmap_eq_iff hpages (fun ppn hreaches => hreaches.left)]
  unfold chunkReaches
  constructor
  . intro hmissed
    by_cases hmany : 8 < count
    . exact Or.inl hmany
    . right
      intro ppn hin hbyte
      apply hmissed ppn hin
      rintro ⟨_, hmany' | hsame⟩
      . exact hmany hmany'
      . exact hbyte hsame
  . rintro (hmany | hset) ppn hin hout
    . exact absurd ⟨hin, Or.inl hmany⟩ hout
    . exact hset ppn hin (fun hsame => hout ⟨hin, Or.inr hsame⟩)

/--
Marking a range has the effect of marking each of its pages, and no other, if and only if the pages that
are passed over are marked already.
-/
theorem pmmMarkChunk_marksPages_iff (pmm : Pmm) (startPpn pageCount : Word)
    (h : startPpn.toNat + pageCount.toNat ≤ 8 * Pmm.bmpMaxSize - 8)
    : (MarksPages pmm (pmmMarkChunkOccupied pmm startPpn pageCount)
          (pmmMarkPagesOccupied pmm startPpn pageCount.toNat) startPpn.toNat pageCount.toNat
        ↔
      PassedOverMarked pmm true startPpn.toNat pageCount.toNat)
        ∧
      (MarksPages pmm (pmmMarkChunkFree pmm startPpn pageCount)
          (pmmMarkPagesFree pmm startPpn pageCount.toNat) startPpn.toNat pageCount.toNat
        ↔
      PassedOverMarked pmm false startPpn.toNat pageCount.toNat) := by
  have hmax : Pmm.bmpMaxSize = 131072 := rfl
  have hlt : startPpn.toNat + pageCount.toNat < 2 ^ 32 - 8 := by omega
  constructor
  . exact (marked_pmmMarkChunkOccupied pmm startPpn pageCount hlt).marksPages_iff
      (marked_pmmMarkPagesOccupied pmm startPpn pageCount.toNat (by omega))
  . exact (marked_pmmMarkChunkFree pmm startPpn pageCount hlt).marksPages_iff
      (marked_pmmMarkPagesFree pmm startPpn pageCount.toNat (by omega))

/--
A bitmap with 16 free pages.
-/
def pmmSixteenFree : Pmm :=
  {
    pmBitmap := fun _ => 0x00#8
    maxPg := 16
    pgLookupPtr := 1
    maxPg_lt := by decide
    pgLookupPtr_pos := by decide
  }

theorem pmmMarkChunk_marksPages_twelve
    : (MarksPages pmmSixteenFree (pmmMarkChunkOccupied pmmSixteenFree 4 12)
          (pmmMarkPagesOccupied pmmSixteenFree 4 12) 4 12
        ↔
      PassedOverMarked pmmSixteenFree true 4 12)
        ∧
      (MarksPages pmmSixteenFree (pmmMarkChunkFree pmmSixteenFree 4 12)
          (pmmMarkPagesFree pmmSixteenFree 4 12) 4 12
        ↔
      PassedOverMarked pmmSixteenFree false 4 12) := by
  exact pmmMarkChunk_marksPages_iff pmmSixteenFree 4 12 (by decide)

/--
Of the pages `4` to `11`, the last four are not marked.
-/
theorem pmmMarkChunkOccupied_misses_second_byte
    : ¬MarksPages pmmSixteenFree (pmmMarkChunkOccupied pmmSixteenFree 4 8)
        (pmmMarkPagesOccupied pmmSixteenFree 4 8) 4 8 := by
  rintro ⟨hbitmap, _⟩
  have hsecond : (pmmMarkChunkOccupied pmmSixteenFree 4 8).pmBitmap 1 = 0x00#8 := by decide
  have hpages : (pmmMarkPagesOccupied pmmSixteenFree 4 8).pmBitmap 1 = 0xF0#8 := by decide
  rw [hbitmap, hpages] at hsecond
  contradiction

end AwaOS
