import AwaOS.Rtc.Tearing

/-!
What `time_getdatetime` makes of a time that the registers hold in one of the four formats that register B selects.
-/

namespace AwaOS

section Encode

/--
A date and a time of this century. The hours are those of a whole day.
-/
structure CivilTime where
  year : Nat
  month : Nat
  day : Nat
  weekday : Nat
  hour : Nat
  minute : Nat
  second : Nat
  year_mem : 2000 ≤ year ∧ year ≤ 2099
  month_mem : 1 ≤ month ∧ month ≤ 12
  day_mem : 1 ≤ day ∧ day ≤ 31
  weekday_mem : 1 ≤ weekday ∧ weekday ≤ 7
  hour_lt : hour < 24
  minute_lt : minute < 60
  second_lt : second < 60

def CivilTime.datetime (time : CivilTime) : Datetime where
  year := BitVec.ofNat 32 time.year
  month := BitVec.ofNat 8 time.month
  day := BitVec.ofNat 8 time.day
  weekday := BitVec.ofNat 8 time.weekday
  hour := BitVec.ofNat 8 time.hour
  minute := BitVec.ofNat 8 time.minute
  second := BitVec.ofNat 8 time.second

/--
A number in a register, in binary or as two decimal digits.
-/
def encodeNumber (binary : Bool) (n : Nat) : BitVec 8 :=
  if binary then
    BitVec.ofNat 8 n
  else
    BitVec.ofNat 8 (n / 10 * 16 + n % 10)

/--
The hours of a 12 hour clock are 12, 1, 2 and so on to 11, and bit 7 is set after noon.
-/
def encodeHour (binary hours24 : Bool) (hour : Nat) : BitVec 8 :=
  if hours24 then
    encodeNumber binary hour
  else
    let onClock := encodeNumber binary (if hour % 12 = 0 then 12 else hour % 12)
    if hour < 12 then onClock else onClock ||| 0x80

/--
The registers that hold `time` if register B holds `regbv`.
-/
def CivilTime.encode (regbv : BitVec 8) (time : CivilTime) : Datetime :=
  let number := encodeNumber (rtcBinEncoded regbv)
  { year := (number (time.year - 2000)).setWidth 32
    month := number time.month
    day := number time.day
    weekday := number time.weekday
    hour := encodeHour (rtcBinEncoded regbv) (rtc24HrsEncoded regbv) time.hour
    minute := number time.minute
    second := number time.second }

end Encode

section Decode

def decodeNumber (binary : Bool) (b : BitVec 8) : BitVec 8 :=
  if binary then b else bcd2dec b

def decodeHour (binary hours24 : Bool) (b : BitVec 8) : BitVec 8 :=
  let hour := decodeNumber binary b
  if !hours24 && hour >>> 7 ≠ 0 then (12 + hour) &&& 0x80 else hour

/--
`convertDatetime`, field by field.
-/
theorem convertDatetime_eq (regbv : BitVec 8) (d : Datetime) (hyear : d.year.toNat < 256)
    : convertDatetime regbv d
        =
      { year := (decodeNumber (rtcBinEncoded regbv) (d.year.setWidth 8)).setWidth 32 + 2000
        month := decodeNumber (rtcBinEncoded regbv) d.month
        day := decodeNumber (rtcBinEncoded regbv) d.day
        weekday := d.weekday
        hour := decodeHour (rtcBinEncoded regbv) (rtc24HrsEncoded regbv) d.hour
        minute := decodeNumber (rtcBinEncoded regbv) d.minute
        second := decodeNumber (rtcBinEncoded regbv) d.second } := by
  have hwidth : (d.year.setWidth 8).setWidth 32 = d.year := by
    apply BitVec.eq_of_toNat_eq
    rw [BitVec.toNat_setWidth, BitVec.toNat_setWidth]
    omega
  unfold convertDatetime decodeHour decodeNumber
  cases rtcBinEncoded regbv with
  | true =>
    simp only [↓reduceIte]
    rw [hwidth]
    split
    . rfl
    . rfl
  | false =>
    simp only [Bool.false_eq_true, ↓reduceIte]
    split
    . rfl
    . rfl

/--
The 100 numbers of two decimal digits.
-/
theorem bcd2dec_digits : ∀ n, n < 100 → bcd2dec (BitVec.ofNat 8 (n / 10 * 16 + n % 10)) = BitVec.ofNat 8 n := by
  decide

theorem decodeNumber_encodeNumber (binary : Bool) {n : Nat} (hn : n < 100)
    : decodeNumber binary (encodeNumber binary n) = BitVec.ofNat 8 n := by
  cases binary with
  | true => rfl
  | false => exact bcd2dec_digits n hn

/--
In the afternoon of a 12 hour clock the BCD digits take bit 7 with them, and in binary `+` is done before `&`.
-/
theorem decodeHour_encodeHour_iff
    : ∀ binary hours24, ∀ hour, hour < 24 →
        (decodeHour binary hours24 (encodeHour binary hours24 hour) = BitVec.ofNat 8 hour
          ↔ (hours24 = true ∨ 1 ≤ hour ∧ hour < 12)) := by
  decide

theorem encode_weekday (regbv : BitVec 8) (time : CivilTime)
    : (time.encode regbv).weekday = time.datetime.weekday := by
  have hmem := time.weekday_mem
  unfold CivilTime.encode encodeNumber
  dsimp only
  split
  . rfl
  . rw [Nat.div_eq_of_lt (by omega), Nat.mod_eq_of_lt (by omega), Nat.zero_mul, Nat.zero_add]
    rfl

/--
All fields but the hour are always right.
-/
theorem convertDatetime_encode (regbv : BitVec 8) (time : CivilTime)
    : convertDatetime regbv (time.encode regbv)
        =
      { time.datetime with
        hour := decodeHour (rtcBinEncoded regbv) (rtc24HrsEncoded regbv)
          (encodeHour (rtcBinEncoded regbv) (rtc24HrsEncoded regbv) time.hour) } := by
  have hyear := time.year_mem
  have hmonth := time.month_mem
  have hday := time.day_mem
  have hminute := time.minute_lt
  have hsecond := time.second_lt
  generalize hyears : time.year - 2000 = years
  have hnumber : (time.encode regbv).year = (encodeNumber (rtcBinEncoded regbv) years).setWidth 32 := by
    rw [← hyears]
    rfl
  have hlt : (time.encode regbv).year.toNat < 256 := by
    rw [hnumber]
    exact toNat_setWidth_lt _
  have hbyte : (time.encode regbv).year.setWidth 8 = encodeNumber (rtcBinEncoded regbv) years := by
    rw [hnumber]
    apply BitVec.eq_of_toNat_eq
    have hsmall := (encodeNumber (rtcBinEncoded regbv) years).isLt
    rw [BitVec.toNat_setWidth, BitVec.toNat_setWidth]
    omega
  have hcentury : (BitVec.ofNat 8 years).setWidth 32 + 2000 = BitVec.ofNat 32 time.year := by
    apply BitVec.eq_of_toNat_eq
    rw [BitVec.toNat_add, BitVec.toNat_setWidth, BitVec.toNat_ofNat, BitVec.toNat_ofNat]
    rw [show (2000 : BitVec 32).toNat = 2000 from rfl]
    omega
  rw [convertDatetime_eq regbv _ hlt, hbyte, decodeNumber_encodeNumber _ (by omega), encode_weekday, hcentury]
  unfold CivilTime.encode
  dsimp only
  rw [decodeNumber_encodeNumber _ (by omega), decodeNumber_encodeNumber _ (by omega),
    decodeNumber_encodeNumber _ (by omega), decodeNumber_encodeNumber _ (by omega)]
  rfl

end Decode

section Call

variable {clock : Clock} {initial : Datetime}

/--
`time_getdatetime` returns with the time that the registers hold all through the call exactly if they count 24
hours, or it is between one and noon.
-/
theorem time_decodes_iff (regbv : BitVec 8) (time : CivilTime) (hholds : clock.contents 0 = time.encode regbv)
    : (∃ s, RtcRun clock initial s ∧ s.pc = .exited ∧ s.now = 0)
        ∧ ∀ s, RtcRun clock initial s → s.pc = .exited → s.now = 0 →
            (convertDatetime regbv s.datetime = time.datetime
              ↔ (rtc24HrsEncoded regbv = true ∨ 1 ≤ time.hour ∧ time.hour < 12)) := by
  refine ⟨exists_untouchedRun clock initial, ?_⟩
  intro s hrun hexited hnow
  rw [hrun.datetime_of_untouched hexited hnow, hholds, convertDatetime_encode,
    ← decodeHour_encodeHour_iff _ _ time.hour time.hour_lt]
  constructor
  . intro heq
    exact congrArg Datetime.hour heq
  . intro heq
    rw [heq]
    rfl

/--
One o'clock in the afternoon on the 7th of March 2022, as BCD digits on a 12 hour clock.
-/
def afternoon : CivilTime where
  year := 2022
  month := 3
  day := 7
  weekday := 2
  hour := 13
  minute := 0
  second := 0
  year_mem := by decide
  month_mem := by decide
  day_mem := by decide
  weekday_mem := by decide
  hour_lt := by decide
  minute_lt := by decide
  second_lt := by decide

/--
A clock that is started at this time. Only the seconds go on.
-/
def afternoonClock : Clock where
  regs n selector :=
    if selector = RtcField.second.selector then
      encodeNumber false (n % 60)
    else if selector = RtcField.minute.selector then
      (afternoon.encode 0).minute
    else if selector = RtcField.hour.selector then
      (afternoon.encode 0).hour
    else if selector = RtcField.weekday.selector then
      (afternoon.encode 0).weekday
    else if selector = RtcField.day.selector then
      (afternoon.encode 0).day
    else if selector = RtcField.month.selector then
      (afternoon.encode 0).month
    else
      (afternoon.encode 0).year.setWidth 8
  second_period m n := by
    have hm := Nat.mod_lt m (show 60 > 0 by decide)
    have hn := Nat.mod_lt n (show 60 > 0 by decide)
    rw [if_pos rfl, if_pos rfl]
    constructor
    . intro h
      have hdecoded := congrArg (decodeNumber false) h
      rw [decodeNumber_encodeNumber false (by omega), decodeNumber_encodeNumber false (by omega)] at hdecoded
      have hnat := congrArg BitVec.toNat hdecoded
      rw [BitVec.toNat_ofNat, BitVec.toNat_ofNat] at hnat
      omega
    . intro h
      rw [h]

theorem afternoonClock_contents : afternoonClock.contents 0 = afternoon.encode 0 := by
  decide

theorem time_decodes_iff_afternoon
    : (∃ s, RtcRun afternoonClock zeroDatetime s ∧ s.pc = .exited ∧ s.now = 0)
        ∧ ∀ s, RtcRun afternoonClock zeroDatetime s → s.pc = .exited → s.now = 0 →
            (convertDatetime 0 s.datetime = afternoon.datetime
              ↔ (rtc24HrsEncoded 0 = true ∨ 1 ≤ afternoon.hour ∧ afternoon.hour < 12)) :=
  time_decodes_iff 0 afternoon afternoonClock_contents

/--
It is taken for 81 o'clock.
-/
theorem time_decodesAfternoonWrong
    : ¬∀ (regbv : BitVec 8) (time : CivilTime) (clock : Clock) (initial : Datetime) (s : RtcState),
        clock.contents 0 = time.encode regbv → RtcRun clock initial s → s.pc = .exited → s.now = 0 →
          convertDatetime regbv s.datetime = time.datetime := by
  intro hall
  obtain ⟨s, hrun, hexited, hnow⟩ := exists_untouchedRun afternoonClock zeroDatetime
  have heq := hall 0 afternoon afternoonClock zeroDatetime s afternoonClock_contents hrun hexited hnow
  rw [hrun.datetime_of_untouched hexited hnow, afternoonClock_contents] at heq
  exact absurd heq (by decide)

end Call

end AwaOS
