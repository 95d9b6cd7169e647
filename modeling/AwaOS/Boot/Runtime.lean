import AwaOS.Boot.Available
import AwaOS.Boot.Paging
import AwaOS.Heap.Sharing

/-!
`_kernel_init` of `kernel/k_init.c`: the memory is set up, the kernel gets its stack, and the heap starts behind
the kernel. Printing concerns the console only.
-/

namespace AwaOS

open Machine

def mem1Mb : Word := 0x100000

/--
The physical memory manager after `_kernel_pre_init`.
-/
def kernelPreInit (pmBitmap : Bitmap) (memUpper : Word) : Pmm :=
  pmmInit pmBitmap (mem1Mb + memUpper <<< 10)

/--
The loop that makes the stack, from page `i` on, with `count` pages left.
-/
def setupKernelRuntime.allocStack (i : Word) : Nat → KernelM Unit
  | 0 => pure ()
  | count + 1 => do
    let _ ← vmmAllocPage (kStackStart + i <<< 12) pgPremRw
    setupKernelRuntime.allocStack (i + 1) count

def setupKernelRuntime (kernelHeapStart : Word) : HeapM Unit := do
  callVmm (setupKernelRuntime.allocStack 0 (kStackSize >>> 12).toNat)
  -- `assert_msg` evaluates its condition and ignores it
  let _ ← kallocInit kernelHeapStart

/--
In `linker.ld` the heap starts where the kernel ends.
-/
def LinkerSymbols.kernelHeapStart (sym : LinkerSymbols) : Word :=
  sym.kernelEnd

section Setup

variable {shared : Nat → Prop} {s₀ s : Machine} {vpn n : Nat}

end Setup

end AwaOS
