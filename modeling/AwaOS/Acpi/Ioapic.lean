import AwaOS.Acpi.Routing
import AwaOS.Interrupt.Wrapper
import AwaOS.Lib.BitField

/-!
The redirection table of the I/O APIC, `hal/ioapic.c`. A register of the device is reached through two words in
memory: one selects it, and the other one is a window onto it.
-/

namespace AwaOS

namespace Acpi

section Impl

def ioapicIoredtblBase : BitVec 8 := 0x10

def ioapicDelmodFixed : Word := 0b000

def pcAtIrqRtc : BitVec 8 := 8

/--
`ioregsel` is the word that selects.
-/
structure Ioapic where
  ioregsel : BitVec 8
  reg : BitVec 8 → Word

/--
The bits that a write leaves alone: the version and the arbitration, and in an entry of the table the delivery
status, the remote IRR and what is reserved. Behind the table there is no register.
-/
def Ioapic.readOnly (sel : BitVec 8) : Word :=
  if sel = 0x00 then
    0xf0ffffff
  else if sel < ioapicIoredtblBase ∨ 0x40 ≤ sel then
    0xffffffff
  else if sel.getLsbD 0 then
    0x00ffffff
  else
    0xfffe5000

/--
`IOAPIC_REG_SEL = sel`
-/
def Ioapic.select (d : Ioapic) (sel : BitVec 8) : Ioapic :=
  { d with ioregsel := sel }

/--
`IOAPIC_REG_WIN = val`
-/
def Ioapic.writeWin (d : Ioapic) (val : Word) : Ioapic :=
  let ro := Ioapic.readOnly d.ioregsel
  { d with reg := Function.update d.reg d.ioregsel ((d.reg d.ioregsel &&& ro) ||| (val &&& ~~~ro)) }

def ioapicWrite (sel : BitVec 8) (val : Word) (d : Ioapic) : Ioapic :=
  (d.select sel).writeWin val

def ioapicRead (sel : BitVec 8) (d : Ioapic) : Word × Ioapic :=
  let d := d.select sel
  (d.reg d.ioregsel, d)

def ioapicRedirect (irq vector dest : BitVec 8) (flags : Word) (d : Ioapic) : Ioapic :=
  let regSel := ioapicIoredtblBase + irq * 2
  let d := ioapicWrite regSel ((vector.setWidth 32 ||| flags) &&& 0x1FFFF) d
  ioapicWrite (regSel + 1) (dest.setWidth 32 <<< 24) d

def ioapicInit (mem : Firmware) (toc : MadtToc) (d : Ioapic) : Ioapic :=
  ioapicRedirect (ioapicGetIrq mem toc pcAtIrqRtc) rtcTimerIv 0 ioapicDelmodFixed d

end Impl

section Table

/--
What the device does with an interrupt at a pin.
-/
structure Redirection where
  vector : BitVec 8
  delmod : BitVec 3
  destmod : BitVec 1
  intpol : BitVec 1
  trig : BitVec 1
  masked : BitVec 1
  dest : BitVec 8
  deriving DecidableEq

def Redirection.decode (low high : Word) : Redirection where
  vector := low.extractLsb' 0 8
  delmod := low.extractLsb' 8 3
  destmod := low.extractLsb' 11 1
  intpol := low.extractLsb' 13 1
  trig := low.extractLsb' 15 1
  masked := low.extractLsb' 16 1
  dest := high.extractLsb' 24 8

/--
The entry of a pin, read as a driver reads it.
-/
def Ioapic.entry (d : Ioapic) (pin : BitVec 8) : Redirection :=
  let (low, d) := ioapicRead (ioapicIoredtblBase + pin * 2) d
  Redirection.decode low (ioapicRead (ioapicIoredtblBase + pin * 2 + 1) d).1

/--
A call of `ioapic_redirect`.
-/
structure RedirectCall where
  irq : BitVec 8
  vector : BitVec 8
  dest : BitVec 8
  flags : Word

def RedirectCall.run (d : Ioapic) (c : RedirectCall) : Ioapic :=
  ioapicRedirect c.irq c.vector c.dest c.flags d

/--
What the call asks for.
-/
def RedirectCall.asked (c : RedirectCall) : Redirection :=
  .decode (c.vector.setWidth 32 ||| c.flags) (c.dest.setWidth 32 <<< 24)

variable {d : Ioapic} {pin irq : BitVec 8}

theorem reg_ioapicWrite (sel r : BitVec 8) (val : Word) (d : Ioapic)
    : (ioapicWrite sel val d).reg r
        =
      if r = sel then
        (d.reg sel &&& Ioapic.readOnly sel) ||| (val &&& ~~~Ioapic.readOnly sel)
      else
        d.reg r := by
  unfold ioapicWrite Ioapic.writeWin Ioapic.select
  dsimp only
  split
  . next heq => rw [heq, Function.update_self]
  . next hne => rw [Function.update_of_ne hne]

theorem entry_eq (d : Ioapic) (pin : BitVec 8)
    : d.entry pin
        =
      .decode (d.reg (ioapicIoredtblBase + pin * 2)) (d.reg (ioapicIoredtblBase + pin * 2 + 1)) :=
  rfl

/--
The registers of two pins are different registers.
-/
theorem sel_ne (hpin : pin < 24) (hirq : irq < 24)
    : ioapicIoredtblBase + pin * 2 ≠ ioapicIoredtblBase + irq * 2 + 1
        ∧ (pin ≠ irq → ioapicIoredtblBase + pin * 2 ≠ ioapicIoredtblBase + irq * 2) := by
  unfold ioapicIoredtblBase
  constructor
  . bv_omega
  . intro hne heq
    apply hne
    bv_omega

theorem readOnly_low (hirq : irq < 24) : Ioapic.readOnly (ioapicIoredtblBase + irq * 2) = 0xfffe5000 := by
  have hall : ∀ irq : BitVec 8, irq < 24 → Ioapic.readOnly (ioapicIoredtblBase + irq * 2) = 0xfffe5000 := by
    decide
  exact hall irq hirq

theorem readOnly_high (hirq : irq < 24) : Ioapic.readOnly (ioapicIoredtblBase + irq * 2 + 1) = 0x00ffffff := by
  have hall : ∀ irq : BitVec 8, irq < 24 → Ioapic.readOnly (ioapicIoredtblBase + irq * 2 + 1) = 0x00ffffff := by
    decide
  exact hall irq hirq

theorem entry_redirect_self (hirq : irq < 24) (vector dest : BitVec 8) (flags : Word) (d : Ioapic)
    : (ioapicRedirect irq vector dest flags d).entry irq = (RedirectCall.mk irq vector dest flags).asked := by
  have hne := (sel_ne hirq hirq).left
  rw [entry_eq]
  unfold ioapicRedirect RedirectCall.asked
  dsimp only
  rw [reg_ioapicWrite, if_neg hne, reg_ioapicWrite, if_pos rfl, reg_ioapicWrite, if_pos rfl, readOnly_low hirq,
    readOnly_high hirq]
  unfold Redirection.decode
  simp (disch := decide) only [BitField.extractLsb'_merge, BitField.extractLsb'_and_of_allOnes]

theorem reg_redirect_of_ne {r : BitVec 8} (hlow : r ≠ ioapicIoredtblBase + irq * 2)
    (hhigh : r ≠ ioapicIoredtblBase + irq * 2 + 1) (vector dest : BitVec 8) (flags : Word) (d : Ioapic)
    : (ioapicRedirect irq vector dest flags d).reg r = d.reg r := by
  unfold ioapicRedirect
  dsimp only
  rw [reg_ioapicWrite, if_neg hhigh, reg_ioapicWrite, if_neg hlow]

theorem entry_redirect_of_ne (hpin : pin < 24) (hirq : irq < 24) (hne : pin ≠ irq) (vector dest : BitVec 8)
    (flags : Word) (d : Ioapic)
    : (ioapicRedirect irq vector dest flags d).entry pin = d.entry pin := by
  obtain ⟨hodd, hlow⟩ := sel_ne hpin hirq
  have hodd' := (sel_ne hirq hpin).left
  rw [entry_eq, entry_eq, reg_redirect_of_ne (hlow hne) hodd]
  rw [reg_redirect_of_ne hodd'.symm]
  intro heq
  apply hlow hne
  exact (BitVec.add_left_inj 1).mp heq

/--
After any sequence of redirections, each entry is the one that was asked for last.
-/
theorem ioapic_lastRedirection (calls : List RedirectCall) (hcalls : ∀ c ∈ calls, c.irq < 24) (hpin : pin < 24)
    : (calls.foldl RedirectCall.run d).entry pin
        =
      ((calls.findRev? (fun c => c.irq = pin)).map RedirectCall.asked).getD (d.entry pin) := by
  apply @LastWriter.foldl_eq _ _ _ RedirectCall.run (fun d => d.entry pin)
  . intro c hc d hself
    have hirq : c.irq = pin := of_decide_eq_true hself
    rw [← hirq]
    exact entry_redirect_self (hcalls c hc) c.vector c.dest c.flags d
  . intro c hc d hother
    have hirq : pin ≠ c.irq := fun heq => of_decide_eq_false hother heq.symm
    exact entry_redirect_of_ne hpin (hcalls c hc) hirq c.vector c.dest c.flags d

/--
All pins are masked.
-/
def maskedIoapic : Ioapic where
  ioregsel := 0
  reg sel := if sel.getLsbD 0 then 0 else 0x10000

/--
The second redirection of the pin 8 masks it again.
-/
theorem ioapic_lastRedirection_masked
    : ([⟨8, 210, 0, 0⟩, ⟨1, 33, 0, 0⟩, ⟨8, 211, 5, 0x10000⟩].foldl RedirectCall.run maskedIoapic).entry 8
        =
      { vector := 211, delmod := 0, destmod := 0, intpol := 0, trig := 0, masked := 1, dest := 5 } := by
  rw [ioapic_lastRedirection _ (by decide) (by decide)]
  decide

end Table

section Clock

variable {mem : Firmware} {madt : Word} {es : List Ics} {slots : Nat → Word} {toc : MadtToc}

/--
The pin that the table gives for the clock.
-/
def clockPin (es : List Ics) : Nat :=
  ((es.findRev? (Ics.overrides pcAtIrqRtc)).map fun e => (gsiOf e.body).toNat).getD pcAtIrqRtc.toNat

theorem clockPin_lt (es : List Ics) : clockPin es < 24 := by
  unfold clockPin
  cases hlast : es.findRev? (Ics.overrides pcAtIrqRtc) with
  | none => decide
  | some e =>
    obtain ⟨_, hoverrides⟩ := LastWriter.findRev?_eq_some hlast
    exact e.gsi_lt (of_decide_eq_true hoverrides).left

/--
Fixed delivery to the processor 0, edge triggered and active high.
-/
def clockRedirection : Redirection where
  vector := rtcTimerIv
  delmod := 0
  destmod := 0
  intpol := 0
  trig := 0
  masked := 0
  dest := 0

/--
When the table has been parsed, `ioapic_init` routes the pin of the clock to its vector, and no other pin.
-/
theorem ioapicInit_routesClock (htable : IsMadt mem madt es) (hslots : ∀ k, k < 24 → slots k = 0)
    : ∃ toc', MadtParse mem madt slots toc toc'
        ∧ ∀ (d : Ioapic) (pin : BitVec 8), pin < 24 →
            (ioapicInit mem toc' d).entry pin = if pin.toNat = clockPin es then clockRedirection else d.entry pin := by
  have hirq : (ioapicGetIrq mem (parsedToc mem madt es slots toc) pcAtIrqRtc).toNat = clockPin es :=
    ioapicGetIrq_table htable hslots toc pcAtIrqRtc
  refine ⟨_, madtParse_table htable slots toc, ?_⟩
  generalize parsedToc mem madt es slots toc = toc' at hirq ⊢
  intro d pin hpin
  have hlt : ioapicGetIrq mem toc' pcAtIrqRtc < 24 := by
    have hpinLt := clockPin_lt es
    rw [← hirq] at hpinLt
    exact hpinLt
  have hasked : Redirection.decode (rtcTimerIv.setWidth 32 ||| ioapicDelmodFixed)
    ((0 : BitVec 8).setWidth 32 <<< 24)
      = clockRedirection := by
    decide
  unfold ioapicInit
  split
  . next heq =>
    have hself : pin = ioapicGetIrq mem toc' pcAtIrqRtc := BitVec.eq_of_toNat_eq (heq.trans hirq.symm)
    rw [hself, entry_redirect_self hlt]
    exact hasked
  . next hne =>
    apply entry_redirect_of_ne hpin hlt
    intro hself
    rw [hself] at hne
    exact hne hirq

/--
A table that moves the clock to pin 20.
-/
def movedClock : Ics :=
  ⟨madtIntso, [0, 8, 20, 0, 0, 0, 0, 0], by decide, by decide, by decide, by decide⟩

def movedTable : Firmware := fun a =>
  if a = 0x1004 then
    54
  else if a < 0x102C then
    0
  else
    movedClock.bytes.getD (a.toNat - 0x102C) 0

theorem ioapicInit_routesClock_moved
    : ∃ toc', MadtParse movedTable 0x1000 (fun _ => 0) ⟨0, 0, 0, fun _ => 0⟩ toc'
        ∧ (ioapicInit movedTable toc' maskedIoapic).entry 20 = clockRedirection
        ∧ ((ioapicInit movedTable toc' maskedIoapic).entry 8).masked = 1 := by
  have htable : IsMadt movedTable 0x1000 [movedClock] := by
    constructor
    . decide
    . decide
    . unfold Ics.HeldAt
      decide
  obtain ⟨toc', hparse, hentry⟩ :=
    @ioapicInit_routesClock _ _ _ _ ⟨0, 0, 0, fun _ => 0⟩ htable (fun _ _ => rfl)
  refine ⟨toc', hparse, ?_, ?_⟩
  . rw [hentry _ 20 (by decide)]
    decide
  . rw [hentry _ 8 (by decide)]
    decide

end Clock

end Acpi

end AwaOS
