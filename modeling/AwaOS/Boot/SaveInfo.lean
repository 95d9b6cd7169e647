import AwaOS.Lib.LoggedMemory
import AwaOS.Page.Basic

/-!
`_save_multiboot_info` of `arch/x86/hhk.c`, which copies the bootloader's information to `mb_info`.
-/

namespace AwaOS

/--
`sizeof(multiboot_info_t)`
-/
def sizeofMultibootInfo : Nat := 120

/--
What `boot.S` reserves for `mb_info`.
-/
def mbInfoSize : Nat := 4096

def multibootInfoDriveInfo : Word := 0x00000080

/--
`present(flags, info)`
-/
def present (flags info : Word) : Bool :=
  flags &&& info ≠ 0

/-!
The members of `multiboot_info_t` that are read here.
-/
namespace multibootInfo

def flagsOffset : Nat := 0

def mmapLengthOffset : Nat := 44

def mmapAddrOffset : Nat := 48

def drivesLengthOffset : Nat := 52

def drivesAddrOffset : Nat := 56

def flags (m : LoggedMem) (info : Word) : Word :=
  m.load32 (info + BitVec.ofNat 32 flagsOffset)

def mmapLength (m : LoggedMem) (info : Word) : Word :=
  m.load32 (info + BitVec.ofNat 32 mmapLengthOffset)

def mmapAddr (m : LoggedMem) (info : Word) : Word :=
  m.load32 (info + BitVec.ofNat 32 mmapAddrOffset)

def drivesLength (m : LoggedMem) (info : Word) : Word :=
  m.load32 (info + BitVec.ofNat 32 drivesLengthOffset)

def drivesAddr (m : LoggedMem) (info : Word) : Word :=
  m.load32 (info + BitVec.ofNat 32 drivesAddrOffset)

def setMmapAddr (m : LoggedMem) (info value : Word) : LoggedMem :=
  m.store32 (info + BitVec.ofNat 32 mmapAddrOffset) value

def setDrivesAddr (m : LoggedMem) (info value : Word) : LoggedMem :=
  m.store32 (info + BitVec.ofNat 32 drivesAddrOffset) value

end multibootInfo

/--
`__save_subset`, which also returns `size`.
-/
def saveSubset (destination base size : Word) (m : LoggedMem) : Word × LoggedMem :=
  (size,
    Nat.fold size.toNat
      (fun i _ m => m.store8 (destination + BitVec.ofNat 32 i) (m.byte (base + BitVec.ofNat 32 i))) m)

namespace saveMultibootInfo

open multibootInfo

/--
The loop over `sizeof(multiboot_info_t)`.
-/
def copyHeader (info destination : Word) (m : LoggedMem) : LoggedMem :=
  let infoB := info
  Nat.fold sizeofMultibootInfo
    (fun current _ m =>
      m.store8 (destination + BitVec.ofNat 32 current) (m.byte (infoB + BitVec.ofNat 32 current))) m

/--
`if (present(info->flags, MULTIBOOT_INFO_DRIVE_INFO)) { ... }`
-/
def saveDrives (info destination current : Word) (m : LoggedMem) : LoggedMem :=
  if present (flags m info) multibootInfoDriveInfo then
    let m := setDrivesAddr m destination (destination + current)
    let saved := saveSubset (destination + current) (drivesAddr m info) (drivesLength m info) m
    saved.2
  else
    m

end saveMultibootInfo

open multibootInfo in
def saveMultibootInfo (info destination : Word) (m : LoggedMem) : LoggedMem :=
  let m := saveMultibootInfo.copyHeader info destination m
  let current := BitVec.ofNat 32 sizeofMultibootInfo
  let m := setMmapAddr m destination (destination + current)
  let saved := saveSubset (destination + current) (mmapAddr m info) (mmapLength m info) m
  let current := current + saved.1
  saveMultibootInfo.saveDrives info destination current saved.2

end AwaOS
