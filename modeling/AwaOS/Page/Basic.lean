import Mathlib.Algebra.Group.Nat.Defs
import Mathlib.Logic.Function.Basic

/-!
The machine words of the i386 target, and the address arithmetic of `awa/mm/page.h`.
-/

/--
`uint32_t`, `uintptr_t`, `size_t`, `unsigned int` and pointers are 32 bits wide.
-/
abbrev Word := BitVec 32

namespace AwaOS

def pgSizeBits : Nat := 12

def pgSize : Nat := 1 <<< pgSizeBits

def pgMaxEntries : Nat := 1024

def higherHlfBase : Word := 0xC0000000

/--
`V2P`
-/
def v2p (vaddr : Word) : Word :=
  vaddr - higherHlfBase

def pgAlign (addr : Word) : Word :=
  addr &&& 0xFFFFF000#32

def l1Index (vaddr : Word) : Nat :=
  ((vaddr &&& 0xFFC00000#32) >>> 22).toNat

def l2Index (vaddr : Word) : Nat :=
  ((vaddr &&& 0x003FF000#32) >>> 12).toNat

def pgOffset (vaddr : Word) : Word :=
  vaddr &&& 0x00000FFF#32

def isCached (entry : Word) : Bool :=
  entry &&& 0x1#32 ≠ 0

def pgPresent : Word := 0x1

def pgWrite : Word := 0x1 <<< 1

def pgAllowUser : Word := 0x1 <<< 2

def pgDisableCache : Word := 1 <<< 4

/--
`NEW_L1_ENTRY`
-/
def newL1Entry (flags ptAddr : Word) : Word :=
  pgAlign ptAddr ||| (flags &&& 0xFFF#32)

/--
`NEW_L2_ENTRY`
-/
def newL2Entry (flags pgAddr : Word) : Word :=
  pgAlign pgAddr ||| (flags &&& 0xFFF#32)

def vAddr (pd pt : Nat) (offset : Word) : Word :=
  BitVec.ofNat 32 (pd <<< 22) ||| BitVec.ofNat 32 (pt <<< 12) ||| offset

def pgEntryFlags (entry : Word) : Word :=
  entry &&& 0xFFF#32

def pgEntryAddr (entry : Word) : Word :=
  entry &&& ~~~0xFFF#32

def hasFlags (entry flags : Word) : Bool :=
  pgEntryFlags entry &&& flags = flags

def pgPremR : Word := pgPresent

def pgPremRw : Word := pgPresent ||| pgWrite

def pgPremUr : Word := pgPresent ||| pgAllowUser

def pgPremUrw : Word := pgPresent ||| pgWrite ||| pgAllowUser

def tSelfRefPerm : Word := pgPremRw ||| pgDisableCache

def l1BaseVaddr : Word := 0xFFFFF000

def l2BaseVaddr : Word := 0xFFC00000

def l2Vaddr (pdOffset : Nat) : Word :=
  l2BaseVaddr ||| BitVec.ofNat 32 (pdOffset <<< 12)

end AwaOS
