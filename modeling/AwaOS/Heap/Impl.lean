import AwaOS.Lib.ByteMemory
import AwaOS.Vmm.Impl

/-!
The kernel heap: the macros of `awa/mm/dmm.h`, the break in `kernel/mm/dmm.c` and the allocator in
`kernel/mm/kalloc.c`. The heap is seen at its virtual addresses. Mapping a page only adds memory with
unknown contents, which is what the memory holds there before.
-/

namespace AwaOS

def mAllocated : Word := 0x1

def mPrevFree : Word := 0x2

def mNotAllocated : Word := 0x0

def mPrevAllocated : Word := 0x0

def chunkS (header : Word) : Word :=
  header &&& ~~~0x3#32

def chunkPF (header : Word) : Word :=
  header &&& mPrevFree

def chunkA (header : Word) : Word :=
  header &&& mAllocated

def pack (size flags : Word) : Word :=
  (size &&& ~~~0x3#32) ||| flags

def boundary : Word := 4

def wsize : Word := 4

def heapInitSize : Word := 4096

/--
`SW`
-/
def sw (m : ByteMem) (p w : Word) : ByteMem :=
  m.write32 p.toNat w

/--
`LW`
-/
def lw (m : ByteMem) (p : Word) : Word :=
  m.read32 p.toNat

def bptr (bp : Word) : Word :=
  bp + wsize

def fptr (hp size : Word) : Word :=
  hp + size - wsize

def nextChk (m : ByteMem) (hp : Word) : Word :=
  hp + chunkS (lw m hp)

def roundup (v k : Word) : Word :=
  (v + k - 1) &&& ~~~(k - 1)

def kStackSize : Word := 64 <<< 10

def kStackStart : Word := 0xFFBFFFFF - kStackSize + 1

/--
Returns the address of the coalesced chunk.
-/
def coalesce (m : ByteMem) (chunkPtr : Word) : Word × ByteMem :=
  let hdr := lw m chunkPtr
  let pf := chunkPF hdr
  let sz := chunkS hdr
  let nHdr := lw m (chunkPtr + sz)
  if chunkA nHdr ≠ 0 ∧ pf ≠ 0 then
    -- case 1: prev is free
    let prevFtr := lw m (chunkPtr - wsize)
    let prevChunkSz := chunkS prevFtr
    let newHdr := pack (prevChunkSz + sz) (chunkPF prevFtr)
    let m := sw m (chunkPtr - prevChunkSz) newHdr
    let m := sw m (fptr chunkPtr sz) newHdr
    (chunkPtr - prevChunkSz, m)
  else if chunkA nHdr = 0 ∧ pf = 0 then
    -- case 2: next is free
    let nextChunkSz := chunkS nHdr
    let newHdr := pack (nextChunkSz + sz) pf
    let m := sw m chunkPtr newHdr
    let m := sw m (fptr chunkPtr (sz + nextChunkSz)) newHdr
    (chunkPtr, m)
  else if chunkA nHdr = 0 ∧ pf ≠ 0 then
    -- case 3: both free
    let prevFtr := lw m (chunkPtr - wsize)
    let nextChunkSz := chunkS nHdr
    let prevChunkSz := chunkS prevFtr
    let newHdr := pack (nextChunkSz + prevChunkSz + sz) (chunkPF prevFtr)
    let m := sw m (chunkPtr - prevChunkSz) newHdr
    let m := sw m (fptr chunkPtr (sz + nextChunkSz)) newHdr
    (chunkPtr - prevChunkSz, m)
  else
    -- case 4: prev and next are not free
    (chunkPtr, m)

def placeChunk (m : ByteMem) (ptr size : Word) : ByteMem :=
  let header := lw m ptr
  let chunkSize := chunkS header
  let m := sw m ptr (pack size (chunkPF header ||| mAllocated))
  let nHdrptr := ptr + size
  let diff := chunkSize - size
  if diff = 0 then
    -- if the current free block is fully occupied
    let nHdr := lw m nHdrptr
    -- notify the next block about our availability
    sw m nHdrptr (nHdr &&& ~~~0x2#32)
  else
    -- if there is remaining free space left
    let remainderHdr := pack diff (mNotAllocated ||| mPrevAllocated)
    let m := sw m nHdrptr remainderHdr
    let m := sw m (fptr nHdrptr diff) remainderHdr
    (coalesce m nHdrptr).2

/--
`lxfree`, as far as the memory is concerned. Its assertions are empty in a release build.
-/
def freeChunk (m : ByteMem) (ptr : Word) : ByteMem :=
  let chunkPtr := ptr - wsize
  let hdr := lw m chunkPtr
  let sz := chunkS hdr
  let nextHdr := chunkPtr + sz
  let m := sw m chunkPtr (hdr &&& ~~~mAllocated)
  let m := sw m (fptr chunkPtr sz) (hdr &&& ~~~mAllocated)
  let m := sw m nextHdr (lw m nextHdr ||| mPrevFree)
  (coalesce m chunkPtr).2

/--
`memset`
-/
def memset (m : ByteMem) (ptr : Word) (value : BitVec 8) : Nat → ByteMem
  | 0 => m
  | num + 1 => Function.update (memset m ptr value num) (ptr + BitVec.ofNat 32 num).toNat value

structure HeapContext where
  start : Word
  brk : Word
  maxAddr : Word

/--
The part of the kernel that the heap works on. `heap` is `__kalloc_kheap`.
-/
structure Kernel where
  vm : Machine
  mem : ByteMem
  heap : HeapContext

/--
A fault in the memory manager, or a walk over the chunks that does not end.
-/
inductive HeapFault where
  | pageFault (e : PageFault)
  | endlessWalk

abbrev HeapM := EStateM HeapFault Kernel

/--
A call of the virtual memory manager.
-/
def callVmm {α : Type} (x : KernelM α) : HeapM α := fun k =>
  match x k.vm with
  | .ok a vm => .ok a { k with vm := vm }
  | .error e vm => .error (.pageFault e) { k with vm := vm }

def setBrk (brk : Word) : HeapM Unit :=
  modify fun k => { k with heap := { k.heap with brk := brk } }

def setMem (mem : ByteMem) : HeapM Unit :=
  modify fun k => { k with mem := mem }

/--
`dmm_init`, with `heap->start` and `heap->max_addr` already in place.
-/
def dmmInit : HeapM Bool := do
  setBrk (← get).heap.start
  let page ← callVmm (vmmAllocPage (← get).heap.brk pgPremRw)
  return page ≠ 0

/--
`if (diff) { ... }`, `false` if this returns from `lxbrk`.
-/
def lxbrk.mapPages (currentBrk diff : Word) : HeapM Bool :=
  if diff ≠ 0 then
    callVmm (vmmAllocPages (pgAlign currentBrk + 0x1000) diff pgPremRw)
  else
    pure true

def lxbrk (size : Word) : HeapM Word := do
  let k ← get
  if size = 0 then
    return k.heap.brk
  else
    let currentBrk := k.heap.brk
    -- the upper bound of our next brk of heap given the size
    let next := currentBrk + roundup size boundary
    if next ≥ k.heap.maxAddr ∨ next < currentBrk then
      return 0
    else
      let diff := pgAlign next - pgAlign currentBrk
      if !(← lxbrk.mapPages currentBrk diff) then
        return 0
      else
        setBrk (currentBrk + size)
        return currentBrk

/--
The new free chunk and the new epilogue. `heap->brk` is set already.
-/
def lxGrowHeap.addChunk (m : ByteMem) (start sz : Word) : Word × ByteMem :=
  let oldMarker := lw m start
  let freeHdr := pack sz (chunkPF oldMarker)
  let m := sw m start freeHdr
  let m := sw m (fptr start sz) freeHdr
  let m := sw m (nextChk m start) (pack 0 (mAllocated ||| mPrevFree))
  coalesce m start

def lxGrowHeap (sz : Word) : HeapM Word := do
  -- the `+ WSIZE` captures the overhead for the epilogue marker
  let start ← lxbrk (sz + wsize)
  if start = 0 then
    return 0
  else
    let sz := roundup sz boundary
    -- minus the overhead for the epilogue
    setBrk ((← get).heap.brk - wsize)
    let (chunk, m) := lxGrowHeap.addChunk (← get).mem start sz
    setMem m
    return chunk

/--
The `while` loop of `lx_malloc_internal`: the first free chunk that is large enough, if there is one.
`none` after more steps than there are addresses, when the walk goes round in circles.
-/
def firstFit (m : ByteMem) (brk size : Word) : Nat → Word → Option (Option Word)
  | 0, _ => none
  | fuel + 1, ptr =>
    if ptr < brk then
      let header := lw m ptr
      let chunkSize := chunkS header
      if chunkSize = 0 ∧ chunkA header ≠ 0 then
        some none
      else if chunkSize ≥ size ∧ chunkA header = 0 then
        some (some ptr)
      else
        firstFit m brk size fuel (ptr + chunkSize)
    else
      some none

def lxMallocInternal (size : Word) : HeapM Word := do
  if size = 0 then
    return 0
  else
    let k ← get
    -- round to largest 4B aligned value and space for header
    let size := roundup (size + wsize) boundary
    match firstFit k.mem k.heap.brk size (2 ^ 32) k.heap.start with
    | none => throw .endlessWalk
    | some (some ptr) =>
      setMem (placeChunk k.mem ptr size)
      return bptr ptr
    | some none =>
      -- if heap is full (seems to be!), then allocate more space
      let ptr ← lxGrowHeap size
      if ptr ≠ 0 then
        setMem (placeChunk (← get).mem ptr size)
        return bptr ptr
      else
        return 0

def lxmalloc (size : Word) : HeapM Word :=
  lxMallocInternal size

def lxcalloc (n elem : Word) : HeapM Word := do
  let pd := n * elem
  -- overflow detection
  if pd < elem ∨ pd < n then
    return 0
  else
    let ptr ← lxmalloc pd
    if ptr = 0 then
      return 0
    else
      setMem (memset (← get).mem ptr 0 pd.toNat)
      return ptr

def lxfree (ptr : Word) : HeapM Unit := do
  if ptr = 0 then
    return
  else
    setMem (freeChunk (← get).mem ptr)

/--
`kernelHeapStart` is the address of `__kernel_heap_start`.
-/
def kallocInit (kernelHeapStart : Word) : HeapM Bool := do
  modify fun k => { k with heap := { start := kernelHeapStart, brk := 0, maxAddr := kStackStart } }
  if !(← dmmInit) then
    return false
  else
    let k ← get
    setMem (sw (sw k.mem k.heap.start (pack 4 mAllocated)) (k.heap.start + wsize) (pack 0 mAllocated))
    setBrk (k.heap.brk + wsize)
    return (← lxGrowHeap heapInitSize) ≠ 0

end AwaOS
