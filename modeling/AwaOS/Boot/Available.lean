import AwaOS.Boot.Reserved
import AwaOS.Pmm.Complete
import AwaOS.Pmm.RoundTrip

/-!
Which pages are free after `setup_memory`. It rounds the start of an available range up but does not shorten
the range by that, and it ignores the upper halves of the addresses and lengths.
-/

namespace AwaOS

namespace MultibootMmapEntry

def base (e : MultibootMmapEntry) : Nat :=
  2 ^ 32 * e.addrHigh.toNat + e.addrLow.toNat

def length (e : MultibootMmapEntry) : Nat :=
  2 ^ 32 * e.lenHigh.toNat + e.lenLow.toNat

/--
The page is one of those that the first pass frees for the entry.
-/
def Frees (e : MultibootMmapEntry) (ppn : Nat) : Prop :=
  e.type = multibootMemoryAvailable
    ∧ chunkReaches ((e.addrLow.toNat + 0xFFF) % 2 ^ 32 / 4096) (e.lenLow.toNat / 4096) ppn

end MultibootMmapEntry

section Mark

variable (pmm : Pmm)

theorem free_markEntry (e : MultibootMmapEntry) (ppn : Nat)
    : (setupMemory.markEntry pmm e).occupied ppn = false ↔ pmm.occupied ppn = false ∨ e.Frees ppn := by
  unfold setupMemory.markEntry MultibootMmapEntry.Frees
  have hstart : ((e.addrLow + 0x0FFF) >>> 12).toNat = (e.addrLow.toNat + 0xFFF) % 2 ^ 32 / 4096 := by
    rw [BitVec.toNat_ushiftRight, Nat.shiftRight_eq_div_pow, BitVec.toNat_add]
    rfl
  have hcount : (e.lenLow >>> 12).toNat = e.lenLow.toNat / 4096 := by
    rw [BitVec.toNat_ushiftRight, Nat.shiftRight_eq_div_pow]
  split
  . next htype =>
    have hlen := e.lenLow.isLt
    have hmarked := marked_pmmMarkChunkFree pmm ((e.addrLow + 0x0FFF) >>> 12) (e.lenLow >>> 12) (by omega)
    rw [hstart, hcount] at hmarked
    by_cases hreach : chunkReaches ((e.addrLow.toNat + 0xFFF) % 2 ^ 32 / 4096) (e.lenLow.toNat / 4096) ppn
    . rw [hmarked.marked ppn hreach]
      exact ⟨fun _ => Or.inr ⟨htype, hreach⟩, fun _ => rfl⟩
    . rw [hmarked.kept ppn hreach]
      exact ⟨Or.inl, fun hor => hor.resolve_right (fun hand => hreach hand.2)⟩
  . next htype => simp [htype]

theorem free_foldl_markEntry (map : List MultibootMmapEntry) (ppn : Nat)
    : (map.foldl setupMemory.markEntry pmm).occupied ppn = false
        ↔
      pmm.occupied ppn = false ∨ ∃ e ∈ map, e.Frees ppn := by
  induction map generalizing pmm with
  | nil => simp
  | cons e map ih =>
    rw [List.foldl_cons, ih, free_markEntry]
    simp only [List.mem_cons, exists_eq_or_imp, or_assoc]

end Mark

/--
The first pass of `setup_memory` and what follows it only change the bitmap.
-/
theorem mark_kept (pmm : Pmm) (kernelEnd : Word) (map : List MultibootMmapEntry)
    : (setupMemory.mark pmm kernelEnd map).maxPg = pmm.maxPg
        ∧ (setupMemory.mark pmm kernelEnd map).pgLookupPtr = pmm.pgLookupPtr := by
  have hfold : (map.foldl setupMemory.markEntry pmm).maxPg = pmm.maxPg
      ∧ (map.foldl setupMemory.markEntry pmm).pgLookupPtr = pmm.pgLookupPtr := by
    induction map generalizing pmm with
    | nil => exact ⟨rfl, rfl⟩
    | cons e map ih =>
      have hentry : (setupMemory.markEntry pmm e).maxPg = pmm.maxPg
          ∧ (setupMemory.markEntry pmm e).pgLookupPtr = pmm.pgLookupPtr := by
        unfold setupMemory.markEntry
        split
        . exact ⟨rfl, rfl⟩
        . exact ⟨rfl, rfl⟩
      rw [List.foldl_cons, (ih _).1, (ih _).2]
      exact hentry
  exact hfold

/--
A page that the bitmap does not keep for the kernel or the VGA buffer.
-/
def Unreserved (kernelEnd : Word) (ppn : Nat) : Prop :=
  ¬(ppn < (v2p kernelEnd).toNat / 4096 ∨ ppn = 0xB8)

/--
A page that is freed for an entry and not kept.
-/
def Freed (kernelEnd : Word) (map : List MultibootMmapEntry) (ppn : Nat) : Prop :=
  (∃ e ∈ map, e.Frees ppn) ∧ Unreserved kernelEnd ppn

theorem free_mark (pmBitmap : Bitmap) (memUpperLim kernelEnd : Word) (map : List MultibootMmapEntry) {ppn : Nat}
    (hppn : ppn < 8 * Pmm.bmpMaxSize)
    : (setupMemory.mark (pmmInit pmBitmap memUpperLim) kernelEnd map).occupied ppn = false
        ↔
      Freed kernelEnd map ppn := by
  have hmax : 8 * Pmm.bmpMaxSize = 2 ^ 20 := rfl
  have hmarked := marked_markOccupied (map.foldl setupMemory.markEntry (pmmInit pmBitmap memUpperLim)) kernelEnd
  unfold setupMemory.mark Freed Unreserved
  by_cases hreserved : ppn < (v2p kernelEnd).toNat / 4096 ∨ ppn = 0xB8
  . rw [hmarked.marked ppn hreserved]
    simp [hreserved]
  . rw [hmarked.kept ppn hreserved, free_foldl_markEntry, occupied_pmmInit _ _ _ (by omega)]
    simp [hreserved]

section FirstFound

variable {freed : Nat → Prop} {bm : Bitmap} {maxPg ppn : Nat}

/--
The scan of the first `pmm_alloc_page` comes to a page. It starts at page 1, and it passes over the first page of
every byte until it has come to a byte that is not `0xFF`.
-/
def ScanReaches (freed : Nat → Prop) (maxPg ppn : Nat) : Prop :=
  (0 < ppn % 8 ∧ 8 * (ppn / 8) + 1 < maxPg) ∨ (8 * (ppn / 8) < maxPg ∧ ∃ q, freed q ∧ q / 8 < ppn / 8)

/--
The free page that this scan finds.
-/
structure FirstFound (freed : Nat → Prop) (maxPg ppn : Nat) : Prop where
  free : freed ppn
  reached : ScanReaches freed maxPg ppn
  least : ∀ q, freed q → ScanReaches freed maxPg q → ppn ≤ q

theorem FirstFound.unique {q : Nat} (h : FirstFound freed maxPg ppn) (hq : FirstFound freed maxPg q) : ppn = q :=
  Nat.le_antisymm (h.least q hq.free hq.reached) (hq.least ppn h.free h.reached)

theorem ScanReaches.lt (h : ScanReaches freed maxPg ppn) (hmax : maxPg < 2 ^ 20) : 1 < maxPg ∧ ppn < 2 ^ 20 := by
  unfold ScanReaches at h
  rcases h with hfirst | ⟨hlt, q, _, hq⟩
  . omega
  . omega

end FirstFound

section Setup

variable {s : Machine} (pmBitmap : Bitmap) (memUpperLim kernelEnd : Word) (map : List MultibootMmapEntry)

end Setup

end AwaOS
