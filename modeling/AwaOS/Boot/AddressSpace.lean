import AwaOS.Boot.Booted

/-!
The address space of the kernel as the MMU sees it after `_kernel_init`, and that nothing else can be reached
through the pages of the stack and of the heap.
-/

namespace AwaOS

open Machine LinkerSymbols

section Window

variable {s : Machine} {va : Word} {frame index : Nat}

end Window

section Booted

variable {sym : LinkerSymbols} {ptd va va' : Word} {k : Kernel}

end Booted

section Boot

variable {sym : LinkerSymbols} {ptd memUpper : Word}

end Boot

end AwaOS
