import AwaOS.Lib.LoggedMemory
import AwaOS.Page.Basic

/-!
`arch/x86/hhk.c`: the directory and the five page tables with which paging is turned on.
-/

namespace AwaOS

/--
The symbols of `linker.ld`.
-/
structure LinkerSymbols where
  kernelStart : Word
  kernelEnd : Word
  initHhkEnd : Word

/--
`KPG_SIZE` of `boot.S`
-/
def kpgSize : Nat := 24 * 1024

def pgTableIdentity : Nat := 0

def pgTableKernel : Nat := 1

def pgTableStack : Nat := 4

/--
`ptd_t` is 4 bytes wide.
-/
def ptAddr (ptd : Word) (ptIndex : Nat) : Word :=
  ptd + BitVec.ofNat 32 (4 * ((ptIndex + 1) * 1024))

def setPde (ptd : Word) (pdeIndex : Nat) (pde : Word) (m : LoggedMem) : LoggedMem :=
  m.store32 (ptd + BitVec.ofNat 32 (4 * pdeIndex)) pde

def setPte (ptd : Word) (ptIndex pteIndex : Nat) (pte : Word) (m : LoggedMem) : LoggedMem :=
  m.store32 (ptAddr ptd ptIndex + BitVec.ofNat 32 (4 * pteIndex)) pte

namespace LinkerSymbols

/--
`KERNEL_PAGE_COUNT`
-/
def kernelPageCount (sym : LinkerSymbols) : Nat :=
  ((sym.kernelEnd - sym.kernelStart + 0x1000 - 1) >>> 12).toNat

/--
`HHK_PAGE_COUNT`
-/
def hhkPageCount (sym : LinkerSymbols) : Nat :=
  ((sym.initHhkEnd - 0x100000 + 0x1000 - 1) >>> 12).toNat

end LinkerSymbols

namespace initPage

/--
The first MiB is mapped to itself.
-/
def mapLow (ptd : Word) (m : LoggedMem) : LoggedMem :=
  Nat.fold 256
    (fun i _ m => setPte ptd pgTableIdentity i (newL2Entry pgPremRw (BitVec.ofNat 32 (i <<< pgSizeBits))) m)
    m

/--
So is the code that turns paging on.
-/
def mapHhk (sym : LinkerSymbols) (ptd : Word) (m : LoggedMem) : LoggedMem :=
  Nat.fold sym.hhkPageCount
    (fun i _ m =>
      setPte ptd pgTableIdentity (256 + i)
        (newL2Entry pgPremRw (0x100000 + BitVec.ofNat 32 (i <<< pgSizeBits))) m)
    m

/--
The page tables of the kernel are put in the directory.
-/
def registerTables (ptd : Word) (kernelPdeIndex : Nat) (m : LoggedMem) : LoggedMem :=
  Nat.fold (pgTableStack - pgTableKernel)
    (fun i _ m => setPde ptd (kernelPdeIndex + i) (newL1Entry pgPremRw (ptAddr ptd (pgTableKernel + i))) m)
    m

/--
All pages of the kernel are counted from the first entry of the first of its page tables.
-/
def mapKernel (ptd : Word) (kernelPteIndex kernelPgCounts : Nat) (kernelPm : Word)
    (m : LoggedMem) : LoggedMem :=
  Nat.fold kernelPgCounts
    (fun i _ m =>
      setPte ptd pgTableKernel (kernelPteIndex + i)
        (newL2Entry pgPremRw (kernelPm + BitVec.ofNat 32 (i <<< pgSizeBits))) m)
    m

end initPage

/--
`none` stands for the endless loop.
-/
def initPage (sym : LinkerSymbols) (ptd : Word) (m : LoggedMem) : Option LoggedMem :=
  let m := setPde ptd 0 (newL1Entry pgPresent (ptd + BitVec.ofNat 32 (4 * pgMaxEntries))) m
  let m := initPage.mapLow ptd m
  let m := initPage.mapHhk sym ptd m
  let kernelPdeIndex := l1Index sym.kernelStart
  let kernelPteIndex := l2Index sym.kernelStart
  let kernelPgCounts := sym.kernelPageCount
  let m := initPage.registerTables ptd kernelPdeIndex m
  if kernelPgCounts > (pgTableStack - pgTableKernel) * pgMaxEntries then
    none
  else
    let kernelPm := v2p sym.kernelStart
    let m := initPage.mapKernel ptd kernelPteIndex kernelPgCounts kernelPm m
    some (setPde ptd (pgMaxEntries - 1) (newL1Entry tSelfRefPerm ptd) m)

/--
The bootloader leaves garbage where the page tables will be.
-/
def hhkInit (sym : LinkerSymbols) (ptd : Word) (kpgSize : Nat) (m : LoggedMem) : Option LoggedMem :=
  let kpg := ptd
  initPage sym ptd (Nat.fold kpgSize (fun i _ m => m.store8 (kpg + BitVec.ofNat 32 i) 0) m)

end AwaOS
