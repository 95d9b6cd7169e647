import AwaOS.Pmm.Chunk
import AwaOS.Vmm.Lemmas.MapPage

/-!
`setup_memory` of `kernel/k_init.c`, which marks the available memory, the kernel and the VGA buffer.
-/

namespace AwaOS

def multibootMemoryAvailable : Word := 1

/--
`multiboot_mmap_entry`
-/
structure MultibootMmapEntry where
  addrLow : Word
  addrHigh : Word
  lenLow : Word
  lenHigh : Word
  type : Word

def vgaBufferVaddr : Word := 0xB0000000

def vgaBufferPaddr : Word := 0xB8000

def vgaBufferSize : Word := 4096

namespace setupMemory

/--
The loop body of the first pass.
-/
def markEntry (pmm : Pmm) (mmap : MultibootMmapEntry) : Pmm :=
  if mmap.type = multibootMemoryAvailable then
    let pg := mmap.addrLow + 0x0FFF
    pmmMarkChunkFree pmm (pg >>> 12) (mmap.lenLow >>> 12)
  else
    pmm

/--
The frames of the kernel and of the VGA buffer.
-/
def markOccupied (pmm : Pmm) (kernelEnd : Word) : Pmm :=
  let pgCount := v2p kernelEnd >>> 12
  let pmm := pmmMarkChunkOccupied pmm 0 pgCount
  let vgaBufPgs := vgaBufferSize >>> 12
  pmmMarkChunkOccupied pmm (vgaBufferPaddr >>> 12) vgaBufPgs

/--
Everything that happens to the bitmap before the VGA buffer is mapped.
-/
def mark (pmm : Pmm) (kernelEnd : Word) (map : List MultibootMmapEntry) : Pmm :=
  markOccupied (map.foldl markEntry pmm) kernelEnd

/--
The loop that maps the VGA buffer, from page `i` on, with `count` pages left.
-/
def mapVga (i : Word) : Nat → KernelM Unit
  | 0 => pure ()
  | count + 1 => do
    let _ ← vmmMapPage (vgaBufferVaddr + i <<< 12) (vgaBufferPaddr + i <<< 12) pgPremRw
    mapVga (i + 1) count

end setupMemory

/--
`kernelEnd` is the address of `__kernel_end`. Printing and `tty_set_buffer` concern the console only.
-/
def setupMemory (kernelEnd : Word) (map : List MultibootMmapEntry) : KernelM Unit := do
  modify fun s => s.setPmm (setupMemory.mark s.pmm kernelEnd map)
  setupMemory.mapVga 0 (vgaBufferSize >>> 12).toNat

end AwaOS
