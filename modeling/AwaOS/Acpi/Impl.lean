import AwaOS.Lib.LoggedMemory
import AwaOS.Page.Basic
import AwaOS.Lib.Walk

/-!
`hal/acpi/parser/madt_parser.c`, the loop of `acpi_init` over the RSDT in `hal/acpi/acpi.c`, and `ioapic_get_irq`
of `hal/ioapic.c`. The tables are in memory that the kernel does not write.
-/

namespace AwaOS

namespace Acpi

abbrev Firmware := Word → BitVec 8

/--
A little endian word.
-/
def load32 (mem : Firmware) (a : Word) : Word :=
  mem (a + 3) ++ mem (a + 2) ++ mem (a + 1) ++ mem a

def madtSig : Word := 0x43495041

/--
`sizeof(acpi_sdthdr_t)`
-/
def sdthdrSize : Nat := 36

/--
`sizeof(acpi_madt_t)`
-/
def madtSize : Nat := 44

/--
`ACPI_MADT_LAPIC`
-/
def madtLapic : BitVec 8 := 0

/--
`ACPI_MADT_IOAPIC`
-/
def madtIoapic : BitVec 8 := 1

/--
`ACPI_MADT_INTSO`
-/
def madtIntso : BitVec 8 := 2

/--
`header.signature` of the table at `sdthdr`.
-/
def signature (mem : Firmware) (sdthdr : Word) : Word :=
  load32 mem sdthdr

/--
`header.length`
-/
def length (mem : Firmware) (sdthdr : Word) : Word :=
  load32 mem (sdthdr + 4)

/--
`acpi_madt_toc_t`. `irqException` is the array behind the pointer of this name. The slots from 24 on are what lies
behind it in the heap.
-/
structure MadtToc where
  apicAddr : Word
  apic : Word
  ioapic : Word
  irqException : Nat → Word

/--
`entry->type`
-/
def icsType (mem : Firmware) (entry : Word) : BitVec 8 :=
  mem entry

/--
`entry->length`
-/
def icsLength (mem : Firmware) (entry : Word) : BitVec 8 :=
  mem (entry + 1)

/--
`intso_tbl->source`
-/
def intsoSource (mem : Firmware) (entry : Word) : BitVec 8 :=
  mem (entry + 3)

/--
`intso_tbl->gsi`
-/
def intsoGsi (mem : Firmware) (entry : Word) : Word :=
  load32 mem (entry + 4)

/--
The local variable `ics_start` of `madt_parse`, and the `toc->madt` that it fills.
-/
structure Parse where
  icsStart : Word
  toc : MadtToc

def icsEnd (mem : Firmware) (madt : Word) : Word :=
  madt + length mem madt

/--
The state of `madt_parse` before its loop. `slots` is what `lxcalloc` allocates.
-/
def madtParse.start (mem : Firmware) (madt : Word) (slots : Nat → Word) (toc : MadtToc) : Parse where
  icsStart := madt + BitVec.ofNat 32 madtSize
  toc := { toc with apicAddr := load32 mem (madt + 36), irqException := slots }

/--
The `switch` over the type of an entry.
-/
def madtParse.store (mem : Firmware) (entry : Word) (toc : MadtToc) : MadtToc :=
  if icsType mem entry = madtLapic then
    { toc with apic := entry }
  else if icsType mem entry = madtIoapic then
    { toc with ioapic := entry }
  else if icsType mem entry = madtIntso then
    { toc with irqException := Function.update toc.irqException (intsoSource mem entry).toNat entry }
  else
    toc

/--
A round of the loop of `madt_parse`, `none` when it is over.
-/
def madtParse.round (mem : Firmware) (icsEnd : Word) (parse : Parse) : Option Parse :=
  if parse.icsStart < icsEnd then
    some {
      icsStart := parse.icsStart + (icsLength mem parse.icsStart).setWidth 32
      toc := madtParse.store mem parse.icsStart parse.toc
    }
  else
    none

/--
`entry_n` of `acpi_init`
-/
def entryN (mem : Firmware) (rsdt : Word) : Nat :=
  ((length mem rsdt - BitVec.ofNat 32 sdthdrSize) >>> 2).toNat

/--
`&((acpi_apic_t**)&(rsdt->entry))[i]`
-/
def rsdtEntryAddr (rsdt : Word) (i : Nat) : Word :=
  rsdt + BitVec.ofNat 32 (sdthdrSize + 4 * i)

def rsdtEntry (mem : Firmware) (rsdt : Word) (i : Nat) : Word :=
  load32 mem (rsdtEntryAddr rsdt i)

/--
Where `acpi_init` is between two rounds of its loop over the RSDT, or of the loop of `madt_parse` that it calls
in round `i`. `icsEnd` is the local variable `ics_end` of `madt_parse`.
-/
inductive Init where
  | tables (i : Nat) (toc : MadtToc)
  | parsing (i : Nat) (madt icsEnd : Word) (parse : Parse)

def Init.toc : Init → MadtToc
  | tables _ toc => toc
  | parsing _ _ _ parse => parse.toc

/--
The next round of either loop, `none` when the loop over the RSDT is over. `entryN` is the local variable `entry_n`.
-/
def acpiInit.round (mem : Firmware) (rsdt : Word) (entryN : Nat) (slots : Nat → Word) : Init → Option Init
  | .tables i toc =>
    if i < entryN then
      let sdthdr := rsdtEntry mem rsdt i
      if signature mem sdthdr = madtSig then
        some (.parsing i sdthdr (icsEnd mem sdthdr) (madtParse.start mem sdthdr slots toc))
      else
        some (.tables (i + 1) toc)
    else
      none
  | .parsing i madt icsEnd parse =>
    match madtParse.round mem icsEnd parse with
    | some parse => some (.parsing i madt icsEnd parse)
    | none => some (.tables (i + 1) parse.toc)

/--
The bytes of a word.
-/
def wordBytes (a : Word) : List Word :=
  [a, a + 1, a + 2, a + 3]

/--
The bytes of the word at an offset into a table.
-/
def fieldBytes (table : Word) (offset : Nat) : List (Word × Word) :=
  (wordBytes (table + BitVec.ofNat 32 offset)).map (table, ·)

/--
The bytes that a round reads, each with the table that it should belong to. For a MADT these are also the fields
`apic_addr` and `header.length`, which `madt_parse` reads before its loop.
-/
def acpiInit.reads (mem : Firmware) (rsdt : Word) (entryN : Nat) : Init → List (Word × Word)
  | .tables i _ =>
    if i < entryN then
      let sdthdr := rsdtEntry mem rsdt i
      fieldBytes rsdt (sdthdrSize + 4 * i)
        ++ fieldBytes sdthdr 0
        ++ if signature mem sdthdr = madtSig then fieldBytes sdthdr 36 ++ fieldBytes sdthdr 4 else []
    else
      []
  | .parsing _ madt icsEnd parse =>
    let entry := parse.icsStart
    if entry < icsEnd then
      if icsType mem entry = madtIntso then
        [(madt, entry), (madt, entry + 3), (madt, entry + 1)]
      else
        [(madt, entry), (madt, entry + 1)]
    else
      []

/--
The slots of `irq_exception` that a round writes.
-/
def acpiInit.writes (mem : Firmware) : Init → List Nat
  | .tables _ _ => []
  | .parsing _ _ icsEnd parse =>
    let entry := parse.icsStart
    if entry < icsEnd ∧ icsType mem entry = madtIntso then
      [(intsoSource mem entry).toNat]
    else
      []

/--
`ioapic_get_irq`
-/
def ioapicGetIrq (mem : Firmware) (toc : MadtToc) (oldIrq : BitVec 8) : BitVec 8 :=
  if oldIrq ≥ 24 then
    oldIrq
  else
    let intOverride := toc.irqException oldIrq.toNat
    if intOverride ≠ 0 then (intsoGsi mem intOverride).setWidth 8 else oldIrq

end Acpi

end AwaOS
