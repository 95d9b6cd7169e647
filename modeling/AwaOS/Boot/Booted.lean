import AwaOS.Boot.Runtime

/-!
The machine after `_kernel_init`, and in every run of the heap from then on: the mappings of the boot code are
still there, and the frames of the stack and of the heap are referred to by nothing else.
-/

namespace AwaOS

open Machine LinkerSymbols

/--
An available entry of the memory map offers `8 * n` pages behind the kernel, up to the end of the memory.
-/
def HasRam (map : List MultibootMmapEntry) (kernelEnd : Word) (maxPg n : Nat) : Prop :=
  ∃ e ∈ map, ∃ group, e.type = multibootMemoryAvailable ∧ (v2p kernelEnd).toNat / 4096 ≤ 8 * group
    ∧ 8 * (group + n) ≤ maxPg ∧ e.addrLow.toNat ≤ 4096 * (8 * group)
    ∧ 4096 * maxPg ≤ e.addrLow.toNat + e.lenLow.toNat

section Supply

variable {map : List MultibootMmapEntry} {sym : LinkerSymbols} {ptd : Word} {n : Nat}

/--
`setup_memory` frees the pages of such an entry.
-/
theorem HasRam.supplies {pmBitmap : Bitmap} {memUpper : Word}
    (h : HasRam map sym.kernelEnd (kernelPreInit pmBitmap memUpper).maxPg n) (hn : 2 ≤ n) (hpages : sym.Pages ptd)
    : (setupMemory.mark (kernelPreInit pmBitmap memUpper) sym.kernelEnd map).Supplies n := by
  obtain ⟨e, he, group, htype, hkernel, hlimit, hlow, hhigh⟩ := h
  obtain ⟨hmax, hptr⟩ := mark_kept (kernelPreInit pmBitmap memUpper) sym.kernelEnd map
  have hbound := (kernelPreInit pmBitmap memUpper).maxPg_lt
  have hstart : (kernelPreInit pmBitmap memUpper).pgLookupPtr = 1 := rfl
  have hvga := hpages.shared_lt (Or.inr rfl : Shared ptd 0xB8)
  apply @Pmm.supplies_of_free _ group
  . rw [hptr, hstart]
    exact Nat.zero_le _
  . rw [hmax]
    exact hlimit
  . intro ppn hge hlt
    rw [hmax] at hlt
    unfold kernelPreInit at *
    rw [free_mark pmBitmap _ sym.kernelEnd map (Nat.lt_trans hlt hbound)]
    refine ⟨⟨e, he, htype, ?_⟩, ?_⟩
    . unfold chunkReaches inRange
      omega
    . unfold Unreserved
      omega

end Supply

section Booted

variable {sym : LinkerSymbols} {ptd : Word} {m : LoggedMem} {pmm : Pmm} {vga runtime : Machine} {k : Kernel}

end Booted

section Translate

variable {sym : LinkerSymbols} {ptd va : Word} {k : Kernel} {s : Machine}

end Translate

end AwaOS
