import AwaOS.Boot.SetupMemory
import AwaOS.Vmm.Lemmas.Frames
import AwaOS.Vmm.Ownership

/-!
The frames of the kernel and of the VGA buffer are never handed out.
-/

namespace AwaOS

theorem keepsOccupied_mapVga (i : Word) (count : Nat)
    : Relates (fun s s' => ∀ ppn, s.pmm.occupied ppn = true → s'.pmm.occupied ppn = true)
        (setupMemory.mapVga i count) := by
  have hoccupied := pmmRelation_occupied
  induction count generalizing i with
  | zero => exact hoccupied.pure ()
  | succ count ih =>
    refine hoccupied.bind (hoccupied.mapPage ?_ _ _ _) (fun _ => ih (i + 1))
    exact fun s ppn hppn => pmmAllocPage_keeps_occupied s.pmm hppn

/--
The frames of the kernel, those below `V2P(&__kernel_end)`, and the frame of the VGA buffer.
-/
def Reserved (kernelEnd : Word) (ppn : Nat) : Prop :=
  4096 * ppn < (v2p kernelEnd).toNat ∨ ppn = 0xB8

section Mark

variable (pmm : Pmm) (kernelEnd : Word)

theorem toNat_v2p_shift : (v2p kernelEnd >>> 12).toNat = (v2p kernelEnd).toNat / 4096 := by
  rw [BitVec.toNat_ushiftRight, Nat.shiftRight_eq_div_pow]

/--
Both ranges start with a byte of the bitmap, so that all their pages are reached.
-/
theorem marked_markOccupied
    : Marked pmm true (fun ppn => ppn < (v2p kernelEnd).toNat / 4096 ∨ ppn = 0xB8)
        (setupMemory.markOccupied pmm kernelEnd) := by
  have hlt := (v2p kernelEnd).isLt
  have hcount := toNat_v2p_shift kernelEnd
  have hkernel := marked_pmmMarkChunkOccupied pmm 0 (v2p kernelEnd >>> 12) (by
    rw [hcount]
    change 0 + _ < _
    omega)
  have hvga := marked_pmmMarkChunkOccupied (pmmMarkChunkOccupied pmm 0 (v2p kernelEnd >>> 12))
    (vgaBufferPaddr >>> 12) (vgaBufferSize >>> 12) (by decide)
  have hreach :
      ∀ ppn, chunkReaches (vgaBufferPaddr >>> 12).toNat (vgaBufferSize >>> 12).toNat ppn ↔ ppn = 0xB8 := by
    intro ppn
    change ((0xB8 ≤ ppn ∧ ppn < 0xB8 + 1) ∧ (8 < 1 ∨ ppn / 8 = 0xB8 / 8)) ↔ _
    omega
  have hreach' :
      ∀ ppn, chunkReaches 0 (v2p kernelEnd >>> 12).toNat ppn ↔ ppn < (v2p kernelEnd).toNat / 4096 := by
    intro ppn
    rw [hcount]
    unfold chunkReaches inRange
    omega
  constructor
  . intro ppn hppn
    by_cases heq : ppn = 0xB8
    . exact hvga.marked ppn ((hreach ppn).mpr heq)
    . have hbelow := hppn.resolve_right heq
      exact (hvga.kept ppn (mt (hreach ppn).mp heq)).trans (hkernel.marked ppn ((hreach' ppn).mpr hbelow))
  . intro ppn hppn
    rw [not_or] at hppn
    exact (hvga.kept ppn (mt (hreach ppn).mp hppn.right)).trans
      (hkernel.kept ppn (mt (hreach' ppn).mp hppn.left))

end Mark

/--
After `setup_memory`, wherever it ends, the reserved frames are marked as occupied.
-/
theorem occupied_setupMemory (s : Machine) (kernelEnd : Word) (map : List MultibootMmapEntry)
    (halign : kernelEnd.toNat % 4096 = 0) (ppn : Nat) (hppn : Reserved kernelEnd ppn)
    : (finalState (setupMemory kernelEnd map s)).pmm.occupied ppn = true := by
  unfold setupMemory
  rw [bind_modify]
  apply keepsOccupied_mapVga
  apply (marked_markOccupied (map.foldl setupMemory.markEntry s.pmm) kernelEnd).marked
  cases hppn with
  | inl hbelow =>
    left
    have : (v2p kernelEnd).toNat % 4096 = 0 := by
      unfold v2p higherHlfBase
      rw [BitVec.toNat_sub]
      change (2 ^ 32 - 0xC0000000 + kernelEnd.toNat) % 2 ^ 32 % 4096 = 0
      omega
    omega
  | inr hvga => exact Or.inr hvga

/--
Calls of `pmm_alloc_page`, and of `pmm_free_page` for pages that it returned before. The list holds what was
returned so far.
-/
inductive FrameRun (pmm₀ : Pmm) : Pmm → List Word → Prop where
  | start : FrameRun pmm₀ pmm₀ []
  | alloc {pmm : Pmm} {returned : List Word} (h : FrameRun pmm₀ pmm returned)
      : FrameRun pmm₀ (pmmAllocPage pmm).2 ((pmmAllocPage pmm).1 :: returned)
  | free {pmm : Pmm} {returned : List Word} {page : Word} (h : FrameRun pmm₀ pmm returned)
    (hpage : page ∈ returned)
      : FrameRun pmm₀ (pmmFreePage pmm page).2 returned

/--
A frame that is marked as occupied at the start is never returned.
-/
theorem FrameRun.not_returned {pmm₀ pmm : Pmm} {returned : List Word} (hrun : FrameRun pmm₀ pmm returned)
    {ppn : Nat} (hoccupied : pmm₀.occupied ppn = true)
    : pmm.occupied ppn = true ∧ ∀ page ∈ returned, page ≠ 0 → (page >>> 12).toNat ≠ ppn := by
  induction hrun with
  | start => exact ⟨hoccupied, fun page hpage => absurd hpage List.not_mem_nil⟩
  | @alloc pmm returned _ ih =>
    obtain ⟨hocc, hnever⟩ := ih
    refine ⟨pmmAllocPage_keeps_occupied pmm hocc, ?_⟩
    intro page hpage hne heq
    cases List.mem_cons.mp hpage with
    | inl hnew =>
      rw [hnew] at hne heq
      have hfree := (pmmAllocPage_took pmm hne).free
      rw [heq, hocc] at hfree
      contradiction
    | inr hold => exact hnever page hold hne heq
  | @free pmm returned page _ hpage ih =>
    obtain ⟨hocc, hnever⟩ := ih
    refine ⟨?_, hnever⟩
    unfold pmmFreePage
    dsimp only
    split
    . next hvalid =>
      have hne : page ≠ 0 := by
        intro hzero
        rw [hzero] at hvalid
        exact hvalid.1 rfl
      rw [occupied_pmmMarkPageFree, hocc, decide_eq_true (hnever page hpage hne).symm]
      rfl
    . exact hocc

/--
After `pmm_init` and `setup_memory` the frames of the kernel and of the VGA buffer are occupied, and no
sequence of calls of `pmm_alloc_page` and `pmm_free_page` ever returns one of them.
-/
theorem reserved_never_returned (s : Machine) (pmBitmap : Bitmap) (memUpperLim kernelEnd : Word)
    (map : List MultibootMmapEntry) (halign : kernelEnd.toNat % 4096 = 0)
    : let pmm := (finalState (setupMemory kernelEnd map (s.setPmm (pmmInit pmBitmap memUpperLim)))).pmm
      (∀ ppn, Reserved kernelEnd ppn → pmm.occupied ppn = true)
        ∧
      ∀ pmm' returned, FrameRun pmm pmm' returned →
        ∀ page ∈ returned, page ≠ 0 → ¬Reserved kernelEnd (page >>> 12).toNat := by
  intro pmm
  have hoccupied : ∀ ppn, Reserved kernelEnd ppn → pmm.occupied ppn = true :=
    occupied_setupMemory _ kernelEnd map halign
  refine ⟨hoccupied, ?_⟩
  intro pmm' returned hrun page hpage hne hreserved
  exact (hrun.not_returned (hoccupied _ hreserved)).2 page hpage hne rfl

/--
A map with the memory from 1 MiB to 128 MiB.
-/
def extendedMemory : List MultibootMmapEntry :=
  [{ addrLow := 0x100000, addrHigh := 0, lenLow := 0x7F00000, lenHigh := 0, type := multibootMemoryAvailable }]

theorem reserved_never_returned_extendedMemory
    : let pmm := (finalState (setupMemory 0xC0200000 extendedMemory
        (directoryOnly.setPmm (pmmInit (fun _ => 0) 0x8000000)))).pmm
      (∀ ppn, Reserved 0xC0200000 ppn → pmm.occupied ppn = true)
        ∧
      ∀ pmm' returned, FrameRun pmm pmm' returned →
        ∀ page ∈ returned, page ≠ 0 → ¬Reserved 0xC0200000 (page >>> 12).toNat := by
  exact reserved_never_returned directoryOnly (fun _ => 0) 0x8000000 0xC0200000 extendedMemory (by decide)

end AwaOS
