import AwaOS.Page.Basic
import AwaOS.Lib.Bitmap

/-!
The physical memory manager, `kernel/mm/pmm.c`.
-/

namespace AwaOS

/--
The static variables of `pmm.c`. `max_pg` only ever is a page aligned 32 bit address shifted down,
and `pg_lookup_ptr` starts at `LOOKUP_START` and never drops below it. The bytes of `pmBitmap` from
`PM_BMP_MAX_SIZE` on are not part of the array.
-/
structure Pmm where
  pmBitmap : Bitmap
  maxPg : Nat
  pgLookupPtr : Nat
  maxPg_lt : maxPg < 2 ^ 20
  pgLookupPtr_pos : 0 < pgLookupPtr

namespace Pmm

/--
`PM_BMP_MAX_SIZE`
-/
def bmpMaxSize : Nat := 128 * 1024

def lookupStart : Nat := 1

theorem lookupStart_pos : 0 < lookupStart := by
  decide

/--
Whether page `ppn` is marked as occupied.
-/
def occupied (pmm : Pmm) (ppn : Nat) : Bool :=
  pmm.pmBitmap.test ppn

def setBitmap (pmm : Pmm) (bm : Bitmap) : Pmm :=
  { pmm with pmBitmap := bm }

def advance (pmm : Pmm) (n : Nat) : Pmm :=
  { pmm with
    pgLookupPtr := pmm.pgLookupPtr + n
    pgLookupPtr_pos := Nat.add_pos_left pmm.pgLookupPtr_pos n }

def rewind (pmm : Pmm) : Pmm :=
  { pmm with
    pgLookupPtr := lookupStart
    pgLookupPtr_pos := Pmm.lookupStart_pos }

end Pmm

def pmmMarkPageFree (pmm : Pmm) (ppn : Word) : Pmm :=
  pmm.setBitmap (pmm.pmBitmap.clear ppn.toNat)

def pmmMarkPageOccupied (pmm : Pmm) (ppn : Word) : Pmm :=
  pmm.setBitmap (pmm.pmBitmap.set ppn.toNat)

/--
The local variables that `MARK_CHUNK_AUX_VAR` declares.
-/
structure MarkChunkAux where
  group : Word
  offset : Word
  groupCount : Word
  remainder : Word
  leadingShifts : Word

def markChunkAuxVar (startPpn pageCount : Word) : MarkChunkAux :=
  let offset := startPpn % 8
  {
    group := startPpn / 8
    offset := offset
    groupCount := (pageCount + offset) / 8
    remainder := (pageCount + offset) % 8
    leadingShifts := if pageCount + offset < 8 then pageCount else 8 - offset
  }

namespace MarkChunkAux

/--
The pages of the first byte: `((1U << leading_shifts) - 1) << (8 - offset - leading_shifts)`.
-/
def leadingMask (aux : MarkChunkAux) : BitVec 8 :=
  (((1#32 <<< aux.leadingShifts) - 1) <<< (8 - aux.offset - aux.leadingShifts)).setWidth 8

/--
The pages of the last byte: `((1U << (page_count > 8 ? remainder : 0)) - 1) << (8 - remainder)`.
-/
def trailingMask (aux : MarkChunkAux) (pageCount : Word) : BitVec 8 :=
  (((1#32 <<< (if 8 < pageCount then aux.remainder else 0)) - 1) <<< (8 - aux.remainder)).setWidth 8

/--
How often the loop over the whole bytes runs: `group_count != 0 && i < group_count - 1`.
-/
def wholeBytes (aux : MarkChunkAux) : Nat :=
  aux.groupCount.toNat - 1

end MarkChunkAux

/--
`for (...; i++, group++) pm_bitmap[group] = byte;`
-/
def fillBytes (bm : Bitmap) (group : Nat) (byte : BitVec 8) : Nat → Bitmap
  | 0 => bm
  | n + 1 => fillBytes (Function.update bm group byte) (group + 1) byte n

def pmmMarkChunkFree (pmm : Pmm) (startPpn pageCount : Word) : Pmm :=
  let aux := markChunkAuxVar startPpn pageCount
  let group := aux.group.toNat
  let bm := pmm.pmBitmap
  let bm := Function.update bm group (bm group &&& ~~~aux.leadingMask)
  let bm := fillBytes bm (group + 1) 0x00#8 aux.wholeBytes
  let group := group + 1 + aux.wholeBytes
  pmm.setBitmap (Function.update bm group (bm group &&& ~~~aux.trailingMask pageCount))

def pmmMarkChunkOccupied (pmm : Pmm) (startPpn pageCount : Word) : Pmm :=
  let aux := markChunkAuxVar startPpn pageCount
  let group := aux.group.toNat
  let bm := pmm.pmBitmap
  let bm := Function.update bm group (bm group ||| aux.leadingMask)
  let bm := fillBytes bm (group + 1) 0xFF#8 aux.wholeBytes
  let group := group + 1 + aux.wholeBytes
  pmm.setBitmap (Function.update bm group (bm group ||| aux.trailingMask pageCount))

theorem pgAlign_shift_lt (addr : Word) : (pgAlign addr >>> 12).toNat < 2 ^ 20 := by
  have := (pgAlign addr).isLt
  simp only [BitVec.toNat_ushiftRight, Nat.shiftRight_eq_div_pow]
  omega

def pmmInit (pmBitmap : Bitmap) (memUpperLim : Word) : Pmm :=
  {
    pmBitmap := fillBytes pmBitmap 0 0xFF#8 Pmm.bmpMaxSize
    maxPg := (pgAlign memUpperLim >>> 12).toNat
    pgLookupPtr := Pmm.lookupStart
    maxPg_lt := pgAlign_shift_lt memUpperLim
    pgLookupPtr_pos := Pmm.lookupStart_pos
  }

/--
The value of `i` at which `for (; i < 8; i++) if (!(chunk & (0x80U >> i))) break;` ends.
-/
def scanChunk (chunk : BitVec 8) (i : Nat) : Nat :=
  if i < 8 then
    if chunk &&& (0x80#8 >>> i) = 0#8 then
      i
    else
      scanChunk chunk (i + 1)
  else
    i
termination_by 8 - i

theorem le_scanChunk (chunk : BitVec 8) (i : Nat) : i ≤ scanChunk chunk i := by
  unfold scanChunk
  split
  . split
    . omega
    . have := le_scanChunk chunk (i + 1)
      omega
  . omega
termination_by 8 - i

/--
Returns `good_page_found`. The address that the `for` loop stores into it is never `NULL`, see
`shiftLeft_ne_null`, so the `while` loop ends with it.
-/
def pmmAllocPage (pmm : Pmm) : Word × Pmm :=
  go pmm pmm.pgLookupPtr pmm.maxPg
where
  go (pmm : Pmm) (oldPgPtr upperLim : Nat) : Word × Pmm :=
    if _hlt:pmm.pgLookupPtr < upperLim then
      let chunk := pmm.pmBitmap (pmm.pgLookupPtr >>> 3)
      if chunk ≠ 0xFF#8 then
        let i := scanChunk chunk (pmm.pgLookupPtr % 8)
        let pmm' := pmm.advance (i - pmm.pgLookupPtr % 8)
        if _hi:i < 8 then
          (BitVec.ofNat 32 (pmm'.pgLookupPtr <<< 12),
            pmmMarkPageOccupied pmm' (BitVec.ofNat 32 pmm'.pgLookupPtr))
        else
          go pmm' oldPgPtr upperLim
      else
        let pmm' := pmm.advance 8
        -- the interval `[old_pg_ptr, max_pg)` is exhausted, go on with `[1, old_pg_ptr)`
        if _hwrap:upperLim ≤ pmm'.pgLookupPtr ∧ oldPgPtr ≠ Pmm.lookupStart then
          go pmm'.rewind Pmm.lookupStart oldPgPtr
        else
          go pmm' oldPgPtr upperLim
    else
      (0, pmm)
  termination_by (if oldPgPtr = Pmm.lookupStart then 0 else oldPgPtr) + (upperLim - pmm.pgLookupPtr)
  decreasing_by
    . have hle := le_scanChunk chunk (pmm.pgLookupPtr % 8)
      simp only [Pmm.advance, i, chunk] at *
      omega
    . simp only [Pmm.rewind, Pmm.lookupStart] at *
      simp only [_hwrap.2]
      simp
      omega
    . simp only [Pmm.advance]
      omega

def pmmFreePage (pmm : Pmm) (page : Word) : Bool × Pmm :=
  let pg := (page >>> 12).toNat
  if pg ≠ 0 ∧ pg < pmm.maxPg then
    (true, pmmMarkPageFree pmm (page >>> 12))
  else
    (false, pmm)

end AwaOS
