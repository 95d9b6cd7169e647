import AwaOS.Page.Lemmas
import AwaOS.Vmm.Machine

/-!
The virtual memory manager, `kernel/mm/vmm.c`. It reaches the page tables through the last entry of
the directory, which refers to the directory itself.
-/

namespace AwaOS

namespace vmmMapInternal

/--
`if (!l1pt->entry[l1_inx]) { ... }`, `false` if this returns from `__vmm_map_internal`.
-/
def makeTable (l1Inx : Nat) (attr : Word) : KernelM Bool := do
  let l1pte ← load (entryAddr l1BaseVaddr l1Inx)
  if l1pte = 0 then
    let newL1ptPa ← callPmmAllocPage
    if newL1ptPa = 0 then
      return false
    else
      store (entryAddr l1BaseVaddr l1Inx) (newL1Entry attr newL1ptPa)
      memsetZero (l2Vaddr l1Inx) pgMaxEntries
      return true
  else
    return true

def makeEntry (l1Inx l2Inx : Nat) (pa attr : Word) (forced : Bool) : KernelM Bool := do
  let l2pt := l2Vaddr l1Inx
  let l2pte ← load (entryAddr l2pt l2Inx)
  if l2pte ≠ 0 ∧ !forced then
    return false
  else
    if l2pte ≠ 0 ∧ hasFlags l2pte pgPresent then
      -- `assert_msg` evaluates its condition and ignores it
      let _ ← callPmmFreePage (pgAlign l2pte)
    store (entryAddr l2pt l2Inx) (newL2Entry attr pa)
    return true

end vmmMapInternal

/--
`__vmm_map_internal`
-/
def vmmMapInternal (l1Inx l2Inx : Nat) (pa attr : Word) (forced : Bool) : KernelM Bool := do
  if ← vmmMapInternal.makeTable l1Inx attr then
    vmmMapInternal.makeEntry l1Inx l2Inx pa attr forced
  else
    return false

namespace vmmMapPage

/--
Where the `while` loop of `vmm_map_page` is left: by its `return`, or because its condition fails.
-/
inductive Exit where
  | mapped (l1Inx l2Inx : Nat)
  | ended (l1Inx l2Inx : Nat)

/--
`if (l2_index == PG_MAX_ENTRIES) { l1_index++; l2_index = 0; }`
-/
def carry (l1Inx l2Inx : Nat) : Nat × Nat :=
  if l2Inx = pgMaxEntries then
    (l1Inx + 1, 0)
  else
    (l1Inx, l2Inx)

theorem carry_le {l1Inx l2Inx : Nat} (hl2 : l2Inx ≤ pgMaxEntries)
    : (carry l1Inx l2Inx).2 + 1 ≤ pgMaxEntries := by
  unfold carry pgMaxEntries at *
  split
  . simp
  . dsimp
    omega

theorem carry_pos (l1Inx l2Inx : Nat)
    : (carry l1Inx l2Inx).1 * pgMaxEntries + (carry l1Inx l2Inx).2 = l1Inx * pgMaxEntries + l2Inx := by
  unfold carry pgMaxEntries
  split
  . dsimp
    omega
  . rfl

/--
`l1pte = l1pt->entry[l1_index]`, in the same branch.
-/
def carryEntry (l1Inx l2Inx : Nat) (l1pte : Word) : KernelM Word :=
  if l2Inx = pgMaxEntries then
    load (entryAddr l1BaseVaddr (carry l1Inx l2Inx).1)
  else
    pure l1pte

def search (pa tattr : Word) (l1Inx l2Inx : Nat) (hl2 : l2Inx ≤ pgMaxEntries) (l1pte : Word)
    : KernelM Exit :=
  if _hcond:l1pte ≠ 0 ∧ l1Inx < pgMaxEntries then do
    let l1Inx' := (carry l1Inx l2Inx).1
    let l2Inx' := (carry l1Inx l2Inx).2
    let l1pte ← carryEntry l1Inx l2Inx l1pte
    let l2pt := l2Vaddr l1Inx'
    let l2pte ← load (entryAddr l2pt l2Inx')
    if l2pt ≠ 0 ∧ l2pte = 0 then
      store (entryAddr l2pt l2Inx') (newL2Entry tattr pa)
      return .mapped l1Inx' l2Inx'
    else
      search pa tattr l1Inx' (l2Inx' + 1) (carry_le hl2) l1pte
  else
    return .ended l1Inx l2Inx
termination_by pgMaxEntries * pgMaxEntries + 1 - (l1Inx * pgMaxEntries + l2Inx)
decreasing_by
  have hpos := carry_pos l1Inx l2Inx
  simp only [pgMaxEntries] at *
  omega

end vmmMapPage

/--
Both `assert`s are empty in a release build.
-/
def vmmMapPage (va pa tattr : Word) : KernelM Word := do
  if pa = 0 ∨ va = 0 then
    return 0
  let l1pte ← load (entryAddr l1BaseVaddr (l1Index va))
  match ← vmmMapPage.search pa tattr (l1Index va) (l2Index va) (l2Index_le va) l1pte with
  | .mapped l1Inx l2Inx => return vAddr l1Inx l2Inx (pgOffset va)
  | .ended l1Inx l2Inx =>
    if l1Inx > pgMaxEntries then
      return 0
    if !(← vmmMapInternal l1Inx l2Inx pa tattr false) then
      return 0
    return vAddr l1Inx l2Inx (pgOffset va)

def vmmFmapPage (va pa tattr : Word) : KernelM Word := do
  if pa = 0 ∨ va = 0 then
    return 0
  if !(← vmmMapInternal (l1Index va) (l2Index va) pa tattr true) then
    return 0
  return vAddr (l1Index va) (l2Index va) (pgOffset va)

def vmmAllocPage (vpn tattr : Word) : KernelM Word := do
  let pp ← callPmmAllocPage
  let result ← vmmMapPage vpn pp tattr
  if result = 0 then
    let _ ← callPmmFreePage pp
  return result

def vmmUnmapPage (va : Word) : KernelM Unit := do
  -- prevent unmap of recursive mapping region
  if l1Index va = 1023 then
    return
  let l1pte ← load (entryAddr l1BaseVaddr (l1Index va))
  if l1pte ≠ 0 then
    let l2pt := l2Vaddr (l1Index va)
    let l2pte ← load (entryAddr l2pt (l2Index va))
    if isCached l2pte then
      let _ ← callPmmFreePage l2pte
    store (entryAddr l2pt (l2Index va)) 0

/--
`for (j = 0; j < count; j++, va += PG_SIZE) vmm_unmap_page(va);`
-/
def vmmUnmapPages (va : Word) : Nat → KernelM Unit
  | 0 => pure ()
  | count + 1 => do
    vmmUnmapPage va
    vmmUnmapPages (va + 0x1000) count

/--
The two ways in which a page of `vmm_alloc_pages` can fail, in the condition of its `if`.
-/
def vmmAllocPages.mapNext (va_ tattr : Word) : KernelM Bool := do
  let pp ← callPmmAllocPage
  if pp = 0 then
    return false
  else
    vmmMapInternal (l1Index va_) (l2Index va_) pp tattr false

def vmmAllocPages (va sz tattr : Word) : KernelM Bool :=
  go 0 va (sz >>> 12).toNat
where
  /--
  The loop from page `i` on, with `count` pages left.
  -/
  go (i : Nat) (va_ : Word) : Nat → KernelM Bool
    | 0 => return true
    | count + 1 => do
      if !(← vmmAllocPages.mapNext va_ tattr) then
        vmmUnmapPages va i
        return false
      else
        go (i + 1) (va_ + 0x1000) count

def vmmSetMapping (va pa attr : Word) : KernelM Unit := do
  -- prevent map of recursive mapping region
  if l1Index va = 1023 then
    return
  let _ ← vmmMapInternal (l1Index va) (l2Index va) pa attr false

structure VMapping where
  pn : Word
  pa : Word
  flags : BitVec 16
  deriving DecidableEq

def vmmLookup (va : Word) : KernelM VMapping := do
  let l1pte ← load (entryAddr l1BaseVaddr (l1Index va))
  if l1pte ≠ 0 then
    let l2pte ← load (entryAddr (l2Vaddr (l1Index va)) (l2Index va))
    if l2pte ≠ 0 then
      return {
        flags := (pgEntryFlags l2pte).setWidth 16
        pa := pgEntryAddr l2pte
        pn := pgEntryAddr l2pte >>> 12
      }
  return { flags := 0, pa := 0, pn := 0 }

end AwaOS
