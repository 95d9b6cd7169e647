import AwaOS.Page.Basic

/-!
The clock of the machine, `hal/rtc.c`. The registers of the clock change while they are read, so that the loop of
`time_getdatetime` is a machine of which one step is one access to a register.
-/

namespace AwaOS

/--
`datetime_t`
-/
structure Datetime where
  year : Word
  month : BitVec 8
  day : BitVec 8
  weekday : BitVec 8
  hour : BitVec 8
  minute : BitVec 8
  second : BitVec 8
  deriving DecidableEq

def rtcCurrentCentry : Word := 20

/--
`RTC_BIN_ENCODED`
-/
def rtcBinEncoded (reg : BitVec 8) : Bool :=
  reg &&& 0x04 ≠ 0

/--
`RTC_24HRS_ENCODED`
-/
def rtc24HrsEncoded (reg : BitVec 8) : Bool :=
  reg &&& 0x02 ≠ 0

def bcd2dec (bcd : BitVec 8) : BitVec 8 :=
  ((bcd &&& 0xF0) >>> 1) + ((bcd &&& 0xF0) >>> 3) + (bcd &&& 0xf)

def rtcDateSame (a b : Datetime) : Bool :=
  a.year = b.year && a.month = b.month && a.day = b.day && a.weekday = b.weekday && a.minute = b.minute
    && a.second = b.second

/--
The fields, in the order in which they are read.
-/
inductive RtcField where
  | year | month | day | weekday | hour | minute | second
  deriving DecidableEq

namespace RtcField

/--
The register that is read.
-/
def selector : RtcField → BitVec 8
  | year => 0x9
  | month => 0x8
  | day => 0x7
  | weekday => 0x6
  | hour => 0x4
  | minute => 0x2
  | second => 0x0

def next : RtcField → Option RtcField
  | year => some month
  | month => some day
  | day => some weekday
  | weekday => some hour
  | hour => some minute
  | minute => some second
  | second => none

def index : RtcField → Nat
  | year => 0
  | month => 1
  | day => 2
  | weekday => 3
  | hour => 4
  | minute => 5
  | second => 6

end RtcField

namespace Datetime

/--
`datetime->f = value`
-/
def assign (d : Datetime) (value : BitVec 8) : RtcField → Datetime
  | .year => { d with year := value.setWidth 32 }
  | .month => { d with month := value }
  | .day => { d with day := value }
  | .weekday => { d with weekday := value }
  | .hour => { d with hour := value }
  | .minute => { d with minute := value }
  | .second => { d with second := value }

def field (d : Datetime) : RtcField → Word
  | .year => d.year
  | .month => d.month.setWidth 32
  | .day => d.day.setWidth 32
  | .weekday => d.weekday.setWidth 32
  | .hour => d.hour.setWidth 32
  | .minute => d.minute.setWidth 32
  | .second => d.second.setWidth 32

end Datetime

/--
The registers after so many ticks of one second.
-/
structure Clock where
  regs : Nat → BitVec 8 → BitVec 8
  second_period : ∀ m n, regs m RtcField.second.selector = regs n RtcField.second.selector ↔ m % 60 = n % 60

/--
What the seven registers hold at one instant.
-/
def Clock.contents (clock : Clock) (n : Nat) : Datetime where
  year := (clock.regs n RtcField.year.selector).setWidth 32
  month := clock.regs n RtcField.month.selector
  day := clock.regs n RtcField.day.selector
  weekday := clock.regs n RtcField.weekday.selector
  hour := clock.regs n RtcField.hour.selector
  minute := clock.regs n RtcField.minute.selector
  second := clock.regs n RtcField.second.selector

inductive RtcPc where
  /-- `while (rtc_read_reg(RTC_REG_A) & 0x80);` -/
  | wait
  | read (f : RtcField)
  | exited
  deriving DecidableEq

/--
`now` counts the ticks. `start` and `previous` are not variables of the program: they are the instants at which
this iteration and the one before it began.
-/
structure RtcState where
  pc : RtcPc
  current : Datetime
  datetime : Datetime
  now : Nat
  start : Nat
  previous : Option Nat
  deriving DecidableEq

def RtcState.init (datetime : Datetime) : RtcState where
  pc := .wait
  current := datetime
  datetime := datetime
  now := 0
  start := 0
  previous := none

inductive RtcAction where
  | tick
  /-- The program reads a register, `regA` if it is register A. -/
  | access (regA : BitVec 8)

/--
`while (!rtc_date_same(datetime, &current));`
-/
def RtcState.endPass (s : RtcState) : RtcState :=
  if rtcDateSame s.datetime s.current then
    { s with pc := .exited }
  else
    { s with pc := .wait, previous := some s.start, start := s.now }

/--
The loop of `time_getdatetime`, `none` when it has been left.
-/
def RtcState.step (clock : Clock) (s : RtcState) (action : RtcAction) : Option RtcState :=
  match s.pc, action with
  | .exited, _ => none
  | _, .tick => some { s with now := s.now + 1 }
  | .wait, .access regA =>
    if regA &&& 0x80 ≠ 0 then
      some s
    else
      some { s with current := s.datetime, pc := .read .year }
  | .read f, .access _ =>
    let s := { s with datetime := s.datetime.assign (clock.regs s.now f.selector) f }
    match f.next with
    | some f => some { s with pc := .read f }
    | none => some s.endPass

/--
`time_getdatetime` after its loop, with the value of register B.
-/
def convertDatetime (regbv : BitVec 8) (d : Datetime) : Datetime :=
  let d :=
    if rtcBinEncoded regbv then
      d
    else
      { d with
        year := (bcd2dec (d.year.setWidth 8)).setWidth 32
        month := bcd2dec d.month
        day := bcd2dec d.day
        hour := bcd2dec d.hour
        minute := bcd2dec d.minute
        second := bcd2dec d.second }
  -- in C, `+` binds stronger than `&`
  let d :=
    if !rtc24HrsEncoded regbv && d.hour >>> 7 ≠ 0 then
      { d with hour := (12 + d.hour) &&& 0x80 }
    else
      d
  { d with year := d.year + rtcCurrentCentry * 100 }

end AwaOS
