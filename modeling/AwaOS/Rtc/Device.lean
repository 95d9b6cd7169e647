import AwaOS.Lib.LastWriter
import AwaOS.Rtc.Impl

/-!
The clock behind its two ports, and the functions of `hal/rtc.c` that set its periodic interrupt. In every run of
them the format of the date stays as the firmware has chosen it.
-/

namespace AwaOS

section Impl

def rtcIndexPort : Nat := 0x70

def rtcTargetPort : Nat := 0x71

def withNmiDisabled : BitVec 8 := 0x80

def rtcRegA : BitVec 8 := 0xA

def rtcRegB : BitVec 8 := 0xB

def rtcRegC : BitVec 8 := 0xC

def rtcRegD : BitVec 8 := 0xD

def rtcTimerOn : BitVec 8 := 0x40

def rtcFrequency1024Hz : BitVec 8 := 0b110

def rtcDivider33Khz : BitVec 8 := 0b010 <<< 4

/--
`nmiDisabled` is the bit of the index port that does not belong to the index.
-/
structure RtcDevice where
  index : BitVec 7
  nmiDisabled : Bool
  reg : BitVec 7 → BitVec 8

namespace RtcDevice

/--
The number of a register.
-/
def number (regSelector : BitVec 8) : BitVec 7 :=
  regSelector.setWidth 7

/--
The bit of register A that says that an update is in progress, and the registers C and D are not written.
-/
def written (d : RtcDevice) (val : BitVec 8) : BitVec 8 :=
  if d.index = number rtcRegA then
    (d.reg d.index &&& 0x80) ||| (val &&& 0x7f)
  else if d.index = number rtcRegC ∨ d.index = number rtcRegD then
    d.reg d.index
  else
    val

/--
`io_outb`
-/
def outb (port : Nat) (data : BitVec 8) (d : RtcDevice) : RtcDevice :=
  if port = rtcIndexPort then
    { d with index := number data, nmiDisabled := data.getLsbD 7 }
  else if port = rtcTargetPort then
    { d with reg := Function.update d.reg d.index (d.written data) }
  else
    d

/--
`io_inb`. A register C that has been read is clear.
-/
def inb (port : Nat) (d : RtcDevice) : BitVec 8 × RtcDevice :=
  if port = rtcTargetPort then
    (d.reg d.index,
      if d.index = number rtcRegC then { d with reg := Function.update d.reg d.index 0 } else d)
  else
    (0xff, d)

end RtcDevice

open RtcDevice

def rtcReadReg (regSelector : BitVec 8) (d : RtcDevice) : BitVec 8 × RtcDevice :=
  inb rtcTargetPort (outb rtcIndexPort regSelector d)

def rtcWriteReg (regSelector val : BitVec 8) (d : RtcDevice) : RtcDevice :=
  outb rtcTargetPort val (outb rtcIndexPort regSelector d)

def rtcEnableTimer (d : RtcDevice) : RtcDevice :=
  let (regB, d) := rtcReadReg (rtcRegB ||| withNmiDisabled) d
  rtcWriteReg (rtcRegB ||| withNmiDisabled) (regB ||| rtcTimerOn) d

def rtcDisableTimer (d : RtcDevice) : RtcDevice :=
  let (regB, d) := rtcReadReg (rtcRegB ||| withNmiDisabled) d
  rtcWriteReg (rtcRegB ||| withNmiDisabled) (regB &&& ~~~rtcTimerOn) d

def rtcInit (d : RtcDevice) : RtcDevice :=
  let (regA, d) := rtcReadReg (rtcRegA ||| withNmiDisabled) d
  let regA := (regA &&& ~~~0x7f) ||| rtcFrequency1024Hz ||| rtcDivider33Khz
  rtcDisableTimer (rtcWriteReg (rtcRegA ||| withNmiDisabled) regA d)

end Impl

section Registers

open RtcDevice

theorem reg_rtcReadReg (regSelector : BitVec 8) (d : RtcDevice) (q : BitVec 7)
    : (rtcReadReg regSelector d).2.reg q
        =
      if q = number rtcRegC ∧ number regSelector = number rtcRegC then 0 else d.reg q := by
  unfold rtcReadReg inb outb
  rw [if_pos rfl, if_pos rfl]
  dsimp only
  by_cases hsel : number regSelector = number rtcRegC
  . rw [if_pos hsel, hsel]
    dsimp only
    by_cases hq : q = number rtcRegC
    . rw [hq, Function.update_self, if_pos ⟨rfl, rfl⟩]
    . rw [Function.update_of_ne hq, if_neg (fun hand => hq hand.left)]
  . rw [if_neg hsel, if_neg (fun hand => hsel hand.right)]

theorem fst_rtcReadReg (regSelector : BitVec 8) (d : RtcDevice)
    : (rtcReadReg regSelector d).1 = d.reg (number regSelector) := by
  unfold rtcReadReg inb outb
  rw [if_pos rfl, if_pos rfl]

theorem reg_rtcWriteReg (regSelector val : BitVec 8) (d : RtcDevice) (q : BitVec 7)
    : (rtcWriteReg regSelector val d).reg q
        =
      if q = number regSelector then { d with index := number regSelector }.written val else d.reg q := by
  have hports : rtcTargetPort ≠ rtcIndexPort := by decide
  unfold rtcWriteReg outb
  rw [if_neg hports, if_pos rfl, if_pos rfl]
  dsimp only
  split
  . next heq =>
    rw [heq, Function.update_self]
    rfl
  . next hne => rw [Function.update_of_ne hne]

end Registers

section Run

open RtcDevice

/--
Whatever the kernel does with the clock after `rtc_init`.
-/
inductive RtcOp where
  | enableTimer
  | disableTimer
  /-- `rtc_read_reg`, as `time_getdatetime` and the handler of the clock call it -/
  | readReg (regSelector : BitVec 8)

def RtcOp.run (d : RtcDevice) : RtcOp → RtcDevice
  | enableTimer => rtcEnableTimer d
  | disableTimer => rtcDisableTimer d
  | readReg regSelector => (rtcReadReg regSelector d).2

/--
Whether the periodic interrupt is on after the operation, if the operation decides it.
-/
def RtcOp.timer : RtcOp → Option Bool
  | enableTimer => some true
  | disableTimer => some false
  | readReg _ => none

/--
The registers after the operations on a clock that had `reg`: only the timer bit of register B and register C can
have changed since `rtc_init`.
-/
structure RtcSet (reg : BitVec 7 → BitVec 8) (timer : Bool) (d : RtcDevice) : Prop where
  rate : d.reg (number rtcRegA) = (reg (number rtcRegA) &&& 0x80) ||| 0x26
  control : d.reg (number rtcRegB)
    = if timer then reg (number rtcRegB) ||| rtcTimerOn else reg (number rtcRegB) &&& ~~~rtcTimerOn
  other : ∀ q, q ≠ number rtcRegA → q ≠ number rtcRegB → q ≠ number rtcRegC → d.reg q = reg q

variable {reg : BitVec 7 → BitVec 8} {timer : Bool} {d : RtcDevice}

theorem number_withNmiDisabled
    : number (rtcRegA ||| withNmiDisabled) = number rtcRegA
        ∧ number (rtcRegB ||| withNmiDisabled) = number rtcRegB := by
  decide

/--
A read and a write of register B touch no other register.
-/
theorem reg_setControl (f : BitVec 8 → BitVec 8) (d : RtcDevice) (q : BitVec 7)
    : (rtcWriteReg (rtcRegB ||| withNmiDisabled) (f (rtcReadReg (rtcRegB ||| withNmiDisabled) d).1)
        (rtcReadReg (rtcRegB ||| withNmiDisabled) d).2).reg q
        =
      if q = number rtcRegB then f (d.reg (number rtcRegB)) else d.reg q := by
  have hne : ¬number rtcRegB = number rtcRegC := by decide
  have hba : ¬number rtcRegB = number rtcRegA := by decide
  have hcd : ¬(number rtcRegB = number rtcRegC ∨ number rtcRegB = number rtcRegD) := by decide
  rw [reg_rtcWriteReg, number_withNmiDisabled.right, fst_rtcReadReg, number_withNmiDisabled.right]
  split
  . unfold RtcDevice.written
    dsimp only
    rw [if_neg hba, if_neg hcd]
  . rw [reg_rtcReadReg, if_neg]
    intro hand
    rw [number_withNmiDisabled.right] at hand
    exact hne hand.right

theorem reg_rtcDisableTimer (d : RtcDevice) (q : BitVec 7)
    : (rtcDisableTimer d).reg q = if q = number rtcRegB then d.reg (number rtcRegB) &&& ~~~rtcTimerOn else d.reg q :=
  reg_setControl (· &&& ~~~rtcTimerOn) d q

theorem reg_setRate (val : BitVec 8) (d : RtcDevice) (q : BitVec 7)
    : (rtcWriteReg (rtcRegA ||| withNmiDisabled) val (rtcReadReg (rtcRegA ||| withNmiDisabled) d).2).reg q
        =
      if q = number rtcRegA then (d.reg (number rtcRegA) &&& 0x80) ||| (val &&& 0x7f) else d.reg q := by
  have hac : ¬number rtcRegA = number rtcRegC := by decide
  have hread : ∀ q, (rtcReadReg (rtcRegA ||| withNmiDisabled) d).2.reg q = d.reg q := by
    intro q
    rw [reg_rtcReadReg, number_withNmiDisabled.left, if_neg (fun hand => hac hand.right)]
  rw [reg_rtcWriteReg, number_withNmiDisabled.left, hread]
  split
  . unfold RtcDevice.written
    dsimp only
    rw [if_pos rfl, hread]
  . rfl

theorem rtcSet_rtcInit (d : RtcDevice) : RtcSet d.reg false (rtcInit d) := by
  have hba : ¬number rtcRegB = number rtcRegA := by decide
  have hbits : ∀ a : BitVec 8,
    (a &&& 0x80) ||| (((a &&& ~~~0x7f) ||| rtcFrequency1024Hz ||| rtcDivider33Khz) &&& 0x7f)
      = (a &&& 0x80) ||| 0x26 := by
    decide
  have hreg : ∀ q, (rtcInit d).reg q
      = if q = number rtcRegB then d.reg (number rtcRegB) &&& ~~~rtcTimerOn
        else if q = number rtcRegA then (d.reg (number rtcRegA) &&& 0x80) ||| 0x26 else d.reg q := by
    intro q
    unfold rtcInit
    rw [reg_rtcDisableTimer, reg_setRate, reg_setRate, fst_rtcReadReg, number_withNmiDisabled.left,
      if_neg hba, hbits]
  constructor
  . rw [hreg, if_neg (Ne.symm hba), if_pos rfl]
  . rw [hreg, if_pos rfl]
    rfl
  . intro q ha hb _
    rw [hreg, if_neg hb, if_neg ha]

/--
A change of register B alone, from one setting of the timer to another one.
-/
theorem RtcSet.setControl (h : RtcSet reg timer d) (f : BitVec 8 → BitVec 8) {timer' : Bool}
    (hf : ∀ b, f (if timer then b ||| rtcTimerOn else b &&& ~~~rtcTimerOn)
      = if timer' then b ||| rtcTimerOn else b &&& ~~~rtcTimerOn)
    : RtcSet reg timer'
        (rtcWriteReg (rtcRegB ||| withNmiDisabled) (f (rtcReadReg (rtcRegB ||| withNmiDisabled) d).1)
          (rtcReadReg (rtcRegB ||| withNmiDisabled) d).2) := by
  have hab : ¬number rtcRegA = number rtcRegB := by decide
  constructor
  . rw [reg_setControl, if_neg hab]
    exact h.rate
  . rw [reg_setControl, if_pos rfl, h.control]
    exact hf _
  . intro q ha hb hc
    rw [reg_setControl, if_neg hb]
    exact h.other q ha hb hc

theorem RtcSet.run (h : RtcSet reg timer d) (op : RtcOp) : RtcSet reg (op.timer.getD timer) (op.run d) := by
  have hac : ¬number rtcRegA = number rtcRegC := by decide
  have hbc : ¬number rtcRegB = number rtcRegC := by decide
  have hon : ∀ timer : Bool, ∀ b : BitVec 8,
    (if timer then b ||| rtcTimerOn else b &&& ~~~rtcTimerOn) ||| rtcTimerOn = b ||| rtcTimerOn := by
    decide
  have hoff : ∀ timer : Bool, ∀ b : BitVec 8,
    (if timer then b ||| rtcTimerOn else b &&& ~~~rtcTimerOn) &&& ~~~rtcTimerOn = b &&& ~~~rtcTimerOn := by
    decide
  cases op with
  | enableTimer =>
    apply h.setControl (· ||| rtcTimerOn)
    exact hon timer
  | disableTimer =>
    apply h.setControl (· &&& ~~~rtcTimerOn)
    exact hoff timer
  | readReg regSelector =>
    constructor
    . exact (reg_rtcReadReg regSelector d _).trans ((if_neg (fun hand => hac hand.left)).trans h.rate)
    . exact (reg_rtcReadReg regSelector d _).trans ((if_neg (fun hand => hbc hand.left)).trans h.control)
    . intro q ha hb hc
      exact (reg_rtcReadReg regSelector d q).trans ((if_neg (fun hand => hc hand.left)).trans (h.other q ha hb hc))

/--
What the last operation that decides it leaves the timer at.
-/
def timerAfter (timer : Bool) (ops : List RtcOp) : Bool :=
  ((ops.findRev? fun op => op.timer.isSome).map fun op => op.timer.getD false).getD timer

theorem foldl_timer (timer : Bool) (ops : List RtcOp)
    : ops.foldl (fun timer op => op.timer.getD timer) timer = timerAfter timer ops := by
  apply @LastWriter.foldl_eq _ _ _ _ id
  . intro op _ timer hdecides
    obtain ⟨value, hvalue⟩ := Option.isSome_iff_exists.mp hdecides
    dsimp only [id]
    rw [hvalue]
    rfl
  . intro op _ timer hkeeps
    dsimp only [id]
    rw [Option.isSome_eq_false_iff.mp hkeeps |> Option.isNone_iff_eq_none.mp]
    rfl

theorem RtcSet.runs (h : RtcSet reg timer d) (ops : List RtcOp)
    : RtcSet reg (timerAfter timer ops) (ops.foldl RtcOp.run d) := by
  rw [← foldl_timer]
  induction ops generalizing d timer with
  | nil => exact h
  | cons op ops ih => exact ih (h.run op)

/--
The date is decoded in the format that the firmware has chosen, whether or not the timer is on.
-/
theorem RtcSet.convertDatetime_eq (h : RtcSet reg timer d) (date : Datetime)
    : convertDatetime (d.reg (number rtcRegB)) date = convertDatetime (reg (number rtcRegB)) date := by
  have hbin : ∀ b : BitVec 8, rtcBinEncoded (b ||| rtcTimerOn) = rtcBinEncoded b
      ∧ rtcBinEncoded (b &&& ~~~rtcTimerOn) = rtcBinEncoded b := by decide
  have h24 : ∀ b : BitVec 8, rtc24HrsEncoded (b ||| rtcTimerOn) = rtc24HrsEncoded b
      ∧ rtc24HrsEncoded (b &&& ~~~rtcTimerOn) = rtc24HrsEncoded b := by decide
  unfold convertDatetime
  rw [h.control]
  cases timer with
  | true =>
    rw [if_pos rfl, (hbin _).left, (h24 _).left]
  | false =>
    rw [if_neg Bool.false_ne_true, (hbin _).right, (h24 _).right]

/--
After `rtc_init` and any sequence of the operations, the periodic interrupt is on if and only if `rtc_enable_timer`
was called last, at the rate that `rtc_init` has set, and the date and its format are those of the firmware.
-/
theorem rtc_keepsFormat (d : RtcDevice) (ops : List RtcOp)
    : RtcSet d.reg (timerAfter false ops) (ops.foldl RtcOp.run (rtcInit d))
        ∧ ∀ date,
            convertDatetime ((ops.foldl RtcOp.run (rtcInit d)).reg (number rtcRegB)) date
              =
            convertDatetime (d.reg (number rtcRegB)) date := by
  have hset := (rtcSet_rtcInit d).runs ops
  exact ⟨hset, hset.convertDatetime_eq⟩

end Run

end AwaOS
