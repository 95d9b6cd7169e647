import AwaOS.Pmm.Impl

/-!
The machine under `kernel/mm/vmm.c`: physical memory, the directory that `CR3` selects, and the two
level translation of virtual addresses. `vmm.c` itself only sees virtual addresses.
-/

namespace AwaOS

/--
Physical memory is a word at an index below 1024 in a frame. `CR0.WP` and `CR4.PSE` are never set, so
neither the write bits nor the size bit of an entry matter to the kernel's own accesses.
`nullReturned` records whether some call of `pmm_alloc_page` has returned `NULL`. No function reads it.
-/
structure Machine where
  mem : Nat → Nat → Word
  cr3 : Nat
  pmm : Pmm
  nullReturned : Bool

/--
An access to a virtual address without a present translation.
-/
structure PageFault where
  va : Word

abbrev KernelM := EStateM PageFault Machine

/--
The frame that a page table entry refers to.
-/
def frameOf (entry : Word) : Nat :=
  (entry >>> 12).toNat

namespace Machine

def setWord (s : Machine) (frame index : Nat) (w : Word) : Machine :=
  { s with mem := Function.update s.mem frame (Function.update (s.mem frame) index w) }

def setPmm (s : Machine) (pmm : Pmm) : Machine :=
  { s with pmm := pmm }

/--
The frame and the word in it at which an aligned access to `va` ends up.
-/
def translate (s : Machine) (va : Word) : Option (Nat × Nat) :=
  let pde := s.mem s.cr3 (l1Index va)
  if isCached pde then
    let pte := s.mem (frameOf pde) (l2Index va)
    if isCached pte then
      some (frameOf pte, (pgOffset va).toNat / 4)
    else
      none
  else
    none

end Machine

def load (va : Word) : KernelM Word := fun s =>
  match s.translate va with
  | some (frame, index) => .ok (s.mem frame index) s
  | none => .error ⟨va⟩ s

def store (va w : Word) : KernelM Unit := fun s =>
  match s.translate va with
  | some (frame, index) => .ok () (s.setWord frame index w)
  | none => .error ⟨va⟩ s

/--
`&pt->entry[index]`
-/
def entryAddr (pt : Word) (index : Nat) : Word :=
  pt + BitVec.ofNat 32 (4 * index)

/--
`memset(ptr, 0, 4 * count)`, word by word.
-/
def memsetZero (ptr : Word) : Nat → KernelM Unit
  | 0 => pure ()
  | count + 1 => do
    store ptr 0
    memsetZero (ptr + 4) count

def callPmmAllocPage : KernelM Word := fun s =>
  let (page, pmm) := pmmAllocPage s.pmm
  .ok page { s with pmm := pmm, nullReturned := s.nullReturned || page = 0 }

def callPmmFreePage (page : Word) : KernelM Bool := fun s =>
  let (freed, pmm) := pmmFreePage s.pmm page
  .ok freed (s.setPmm pmm)

end AwaOS
