import AwaOS.Page.Basic

/-!
The writers of the descriptor tables, `kernel/asm/x86/idt.c` and `kernel/asm/x86/gdt.c`.
-/

namespace AwaOS

/--
`uint64_t table[n]`
-/
abbrev DescriptorTable (n : Nat) := Vector (BitVec 64) n

def idtEntry : Nat := 256

abbrev Idt := DescriptorTable idtEntry

def gdtEntry : Nat := 5

abbrev Gdt := DescriptorTable gdtEntry

namespace DescriptorTable

variable {n : Nat}

/--
`table[index]`, which is undefined behind the end of the table.
-/
def load (table : DescriptorTable n) (index : Word) : Option (BitVec 64) :=
  table[index.toNat]?

def store (table : DescriptorTable n) (index : Word) (descriptor : BitVec 64) : Option (DescriptorTable n) :=
  if h : index.toNat < n then
    some (table.set index.toNat descriptor h)
  else
    none

/--
`table[index] = high; table[index] <<= 32; table[index] |= low`
-/
def setEntry (table : DescriptorTable n) (index high low : Word) : Option (DescriptorTable n) := do
  let table ← table.store index (high.setWidth 64)
  let table ← table.store index ((← table.load index) <<< 32)
  table.store index ((← table.load index) ||| low.setWidth 64)

end DescriptorTable

/--
`IDT_ATTR`, an `int`.
-/
def idtAttr (dpl : BitVec 8) : Word :=
  0x70#32 <<< 5 ||| (dpl.setWidth 32 &&& 3#32) <<< 13 ||| 1#32 <<< 15

/--
`_set_idt_entry`
-/
def setIdtEntry (idt : Idt) (vector : Word) (segSelector : BitVec 16) (isr : Word) (dpl : BitVec 8) : Option Idt :=
  let offset := isr
  -- `seg_selector << 16` is an `int` and may be negative, but `|` makes it unsigned before it gets 64 bits wide
  idt.setEntry vector
    ((offset &&& 0xffff0000#32) ||| idtAttr dpl)
    (segSelector.setWidth 32 <<< 16 ||| (offset &&& 0x0000ffff#32))

def sdType (x : Word) : Word :=
  x <<< 8

def sdCodeData (x : Word) : Word :=
  x <<< 12

def sdDpl (x : Word) : Word :=
  x <<< 13

def sdPresent (x : Word) : Word :=
  x <<< 15

def sdAvl (x : Word) : Word :=
  x <<< 20

def sd64Bits (x : Word) : Word :=
  x <<< 21

def sd32Bits (x : Word) : Word :=
  x <<< 22

def sd4kGran (x : Word) : Word :=
  x <<< 23

def segLimL (x : Word) : Word :=
  x &&& 0x0ffff#32

def segLimH (x : Word) : Word :=
  x &&& 0xf0000#32

def segBaseL (x : Word) : Word :=
  (x &&& 0x0000ffff#32) <<< 16

def segBaseM (x : Word) : Word :=
  (x &&& 0x00ff0000#32) >>> 16

def segBaseH (x : Word) : Word :=
  x &&& 0xff000000#32

/--
`_set_gdt_entry`
-/
def setGdtEntry (gdt : Gdt) (index base limit flags : Word) : Option Gdt :=
  gdt.setEntry index
    (segBaseH base ||| flags ||| segLimH limit ||| segBaseM base)
    (segBaseL base ||| segLimL limit)

def segDataRdwr : Word := 0x02

def segCodeExrd : Word := 0x0A

def segR0Code : Word :=
  sdType segCodeExrd ||| sdCodeData 1 ||| sdDpl 0 ||| sdPresent 1 ||| sdAvl 0 ||| sd64Bits 0 ||| sd32Bits 1 |||
    sd4kGran 1

def segR0Data : Word :=
  sdType segDataRdwr ||| sdCodeData 1 ||| sdDpl 0 ||| sdPresent 1 ||| sdAvl 0 ||| sd64Bits 0 ||| sd32Bits 1 |||
    sd4kGran 1

def segR3Code : Word :=
  sdType segCodeExrd ||| sdCodeData 1 ||| sdDpl 3 ||| sdPresent 1 ||| sdAvl 0 ||| sd64Bits 0 ||| sd32Bits 1 |||
    sd4kGran 1

def segR3Data : Word :=
  sdType segDataRdwr ||| sdCodeData 1 ||| sdDpl 3 ||| sdPresent 1 ||| sdAvl 0 ||| sd64Bits 0 ||| sd32Bits 1 |||
    sd4kGran 1

/--
`_init_gdt`
-/
def initGdt (gdt : Gdt) : Option Gdt := do
  let gdt ← setGdtEntry gdt 0 0 0 0
  let gdt ← setGdtEntry gdt 1 0 0xfffff segR0Code
  let gdt ← setGdtEntry gdt 2 0 0xfffff segR0Data
  let gdt ← setGdtEntry gdt 3 0 0xfffff segR3Code
  setGdtEntry gdt 4 0 0xfffff segR3Data

end AwaOS
