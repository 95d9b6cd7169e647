import AwaOS.Rtc.Impl
import Mathlib.Logic.Relation

/-!
The seven fields that the loop of `time_getdatetime` leaves with were in the registers at the same instant. Two
passes that agree on the seconds have no tick between the ends of them, so that nothing changed during the second one.
-/

namespace AwaOS

section Fields

theorem RtcField.index_next {f g : RtcField} (h : f.next = some g) : g.index = f.index + 1 := by
  cases f <;> cases h <;> rfl

theorem RtcField.index_lt (f : RtcField) : f.index < 7 := by
  cases f <;> decide

theorem RtcField.index_injective {f g : RtcField} (h : f.index = g.index) : f = g := by
  cases f <;> cases g <;> first | rfl | cases h

theorem setWidth_injective {a b : BitVec 8} (h : a.setWidth 32 = b.setWidth 32) : a = b := by
  have hnat := congrArg BitVec.toNat h
  rw [BitVec.toNat_setWidth, BitVec.toNat_setWidth] at hnat
  have ha := a.isLt
  have hb := b.isLt
  apply BitVec.eq_of_toNat_eq
  omega

theorem toNat_setWidth_lt (b : BitVec 8) : (b.setWidth 32).toNat < 256 := by
  rw [BitVec.toNat_setWidth]
  exact Nat.lt_of_le_of_lt (Nat.mod_le _ _) b.isLt

namespace Datetime

theorem field_assign_self (d : Datetime) (value : BitVec 8) (f : RtcField)
    : (d.assign value f).field f = value.setWidth 32 := by
  cases f <;> rfl

theorem field_assign_of_ne (d : Datetime) (value : BitVec 8) {f g : RtcField} (hne : g ≠ f)
    : (d.assign value f).field g = d.field g := by
  cases f <;> cases g <;> first | rfl | exact absurd rfl hne

theorem ext_field {d d' : Datetime} (h : ∀ f, d.field f = d'.field f) : d = d' := by
  have hyear : d.year = d'.year := h .year
  have hmonth : d.month = d'.month := setWidth_injective (h .month)
  have hday : d.day = d'.day := setWidth_injective (h .day)
  have hweekday : d.weekday = d'.weekday := setWidth_injective (h .weekday)
  have hhour : d.hour = d'.hour := setWidth_injective (h .hour)
  have hminute : d.minute = d'.minute := setWidth_injective (h .minute)
  have hsecond : d.second = d'.second := setWidth_injective (h .second)
  rcases d with ⟨year, month, day, weekday, hour, minute, second⟩
  rcases d' with ⟨year', month', day', weekday', hour', minute', second'⟩
  dsimp only at hyear hmonth hday hweekday hhour hminute hsecond
  rw [hyear, hmonth, hday, hweekday, hhour, hminute, hsecond]

end Datetime

/--
The hour is left out.
-/
theorem rtcDateSame_iff {d d' : Datetime} : rtcDateSame d d' = true ↔ ∀ f, f ≠ .hour → d.field f = d'.field f := by
  unfold rtcDateSame
  simp only [Bool.and_eq_true, decide_eq_true_eq]
  constructor
  . intro ⟨⟨⟨⟨⟨hyear, hmonth⟩, hday⟩, hweekday⟩, hminute⟩, hsecond⟩ f hf
    cases f with
    | year => exact hyear
    | month => exact congrArg (BitVec.setWidth 32) hmonth
    | day => exact congrArg (BitVec.setWidth 32) hday
    | weekday => exact congrArg (BitVec.setWidth 32) hweekday
    | hour => exact absurd rfl hf
    | minute => exact congrArg (BitVec.setWidth 32) hminute
    | second => exact congrArg (BitVec.setWidth 32) hsecond
  . intro h
    exact ⟨⟨⟨⟨⟨h .year (by decide), setWidth_injective (h .month (by decide))⟩,
      setWidth_injective (h .day (by decide))⟩, setWidth_injective (h .weekday (by decide))⟩,
      setWidth_injective (h .minute (by decide))⟩, setWidth_injective (h .second (by decide))⟩

theorem Clock.field_contents (clock : Clock) (n : Nat) (f : RtcField)
    : (clock.contents n).field f = (clock.regs n f.selector).setWidth 32 := by
  cases f <;> rfl

end Fields

section Readings

variable {clock : Clock}

/--
The fields before the `k`th one were read one after the other, between the instants `start` and `now`.
-/
def ReadUpTo (clock : Clock) (start now k : Nat) (d : Datetime) : Prop :=
  ∃ t : RtcField → Nat,
    (∀ f g, f.index ≤ g.index → g.index < k → t f ≤ t g)
    ∧ ∀ f, f.index < k → start ≤ t f ∧ t f ≤ now ∧ d.field f = (clock.contents (t f)).field f

/--
A possible raw reading of the registers, not before the call.
-/
def RawReading (clock : Clock) (d : Datetime) : Prop :=
  ∃ t : RtcField → Nat,
    (∀ f g, f.index ≤ g.index → t f ≤ t g) ∧ ∀ f, d.field f = (clock.contents (t f)).field f

theorem readUpTo_zero (clock : Clock) (start now : Nat) (d : Datetime) : ReadUpTo clock start now 0 d :=
  ⟨fun _ => 0, fun _ _ _ hk => absurd hk (Nat.not_lt_zero _), fun _ hk => absurd hk (Nat.not_lt_zero _)⟩

theorem ReadUpTo.later {start now now' k : Nat} {d : Datetime} (h : ReadUpTo clock start now k d) (hle : now ≤ now')
    : ReadUpTo clock start now' k d := by
  obtain ⟨t, hmono, hread⟩ := h
  refine ⟨t, hmono, ?_⟩
  intro f hf
  obtain ⟨hstart, hnow, heq⟩ := hread f hf
  exact ⟨hstart, Nat.le_trans hnow hle, heq⟩

theorem ReadUpTo.assign {start now : Nat} {d : Datetime} {f : RtcField} (h : ReadUpTo clock start now f.index d)
    (hle : start ≤ now)
    : ReadUpTo clock start now (f.index + 1) (d.assign (clock.regs now f.selector) f) := by
  obtain ⟨t, hmono, hread⟩ := h
  have hbefore : ∀ g, g.index < f.index + 1 → g ≠ f → g.index < f.index := by
    intro g hg hne
    have hindex : g.index ≠ f.index := fun heq => hne (RtcField.index_injective heq)
    omega
  refine ⟨Function.update t f now, ?_, ?_⟩
  . intro g h hgh hh
    by_cases hhf : h = f
    . rw [hhf, Function.update_self]
      by_cases hgf : g = f
      . exact Nat.le_of_eq (by rw [hgf, Function.update_self])
      . rw [Function.update_of_ne hgf]
        exact (hread g (hbefore g (by omega) hgf)).right.left
    . have hlt := hbefore h hh hhf
      have hgf : g ≠ f := by
        intro heq
        rw [heq] at hgh
        omega
      rw [Function.update_of_ne hhf, Function.update_of_ne hgf]
      exact hmono g h hgh hlt
  . intro g hg
    by_cases hgf : g = f
    . rw [hgf, Function.update_self, Datetime.field_assign_self, Clock.field_contents]
      exact ⟨hle, Nat.le_refl now, rfl⟩
    . rw [Function.update_of_ne hgf, Datetime.field_assign_of_ne _ _ hgf]
      exact hread g (hbefore g hg hgf)

/--
A whole pass.
-/
theorem ReadUpTo.rawReading {start now k : Nat} {d : Datetime} (h : ReadUpTo clock start now k d)
    (hall : ∀ f : RtcField, f.index < k)
    : RawReading clock d := by
  obtain ⟨t, hmono, hread⟩ := h
  exact ⟨t, fun f g hfg => hmono f g hfg (hall g), fun f => (hread f (hall f)).right.right⟩

theorem ReadUpTo.contents {n k : Nat} {d : Datetime} (h : ReadUpTo clock n n k d)
    (hall : ∀ f : RtcField, f.index < k)
    : d = clock.contents n := by
  obtain ⟨t, -, hread⟩ := h
  apply Datetime.ext_field
  intro f
  obtain ⟨hstart, hnow, heq⟩ := hread f (hall f)
  rw [heq, Nat.le_antisymm hnow hstart]

end Readings

section Run

variable {clock : Clock} {initial : Datetime} {s s' : RtcState}

/--
Fewer than 60 ticks have occurred since the iteration before this one began.
-/
def RtcState.Paced (s : RtcState) : Prop :=
  ∀ p, s.previous = some p → s.now < p + 60

theorem RtcState.step_exited (clock : Clock) (action : RtcAction) (hpc : s.pc = .exited)
    : s.step clock action = none := by
  unfold RtcState.step
  rw [hpc]

theorem RtcState.step_tick (clock : Clock) (hpc : s.pc ≠ .exited)
    : s.step clock .tick = some { s with now := s.now + 1 } := by
  unfold RtcState.step
  split
  . next heq => exact absurd heq hpc
  . rfl
  . next heq => cases heq
  . next heq => cases heq

/--
The states of a call, in any order of its accesses and the ticks.
-/
def RtcRun (clock : Clock) (initial : Datetime) : RtcState → Prop :=
  Relation.ReflTransGen (fun s s' => (∃ action, s.step clock action = some s') ∧ s'.Paced) (.init initial)

/--
What this iteration compares its fields with: those of the caller, or what the iteration before it has read. The
seconds were the last field of that.
-/
def ComparedWith (clock : Clock) (initial : Datetime) (s : RtcState) (d : Datetime) : Prop :=
  match s.previous with
  | none => d = initial
  | some p => ∃ m, p ≤ m ∧ m ≤ s.start ∧ d.second = (clock.contents m).second

/--
A whole pass has been accepted.
-/
structure PassAccepted (clock : Clock) (initial : Datetime) (s : RtcState) : Prop where
  compared : ComparedWith clock initial s s.current
  same : rtcDateSame s.datetime s.current = true
  pass : ReadUpTo clock s.start s.now 7 s.datetime
  second : s.datetime.second = (clock.contents s.now).second

def LoopInv (clock : Clock) (initial : Datetime) (s : RtcState) : Prop :=
  s.start ≤ s.now
    ∧ match s.pc with
      | .wait => ComparedWith clock initial s s.datetime
      | .read f => ComparedWith clock initial s s.current ∧ ReadUpTo clock s.start s.now f.index s.datetime
      | .exited => PassAccepted clock initial s

theorem loopInv_init (clock : Clock) (initial : Datetime) : LoopInv clock initial (.init initial) :=
  ⟨Nat.le_refl 0, rfl⟩

/--
The last read of a pass and the comparison.
-/
theorem loopInv_endPass (hle : s.start ≤ s.now) (hcompared : ComparedWith clock initial s s.current)
    (hpass : ReadUpTo clock s.start s.now 7 s.datetime)
    (hsecond : s.datetime.second = (clock.contents s.now).second)
    : LoopInv clock initial s.endPass := by
  unfold RtcState.endPass
  split
  . next hsame => exact ⟨hle, hcompared, hsame, hpass, hsecond⟩
  . next => exact ⟨Nat.le_refl _, s.now, hle, Nat.le_refl _, hsecond⟩

theorem loopInv_tick (hinv : LoopInv clock initial s) (hpc : s.pc ≠ .exited)
    : LoopInv clock initial { s with now := s.now + 1 } := by
  obtain ⟨hle, hat⟩ := hinv
  refine ⟨Nat.le_succ_of_le hle, ?_⟩
  cases hcase : s.pc with
  | wait =>
    rw [hcase] at hat
    exact hat
  | read f =>
    rw [hcase] at hat
    exact ⟨hat.left, hat.right.later (Nat.le_succ _)⟩
  | exited => exact absurd hcase hpc

theorem loopInv_read {f : RtcField} (hinv : LoopInv clock initial s) (hpc : s.pc = .read f) {regA : BitVec 8}
    (hstep : s.step clock (.access regA) = some s')
    : LoopInv clock initial s' := by
  obtain ⟨hle, hat⟩ := hinv
  rw [hpc] at hat
  obtain ⟨hcompared, hread⟩ := hat
  have hassigned := hread.assign hle
  unfold RtcState.step at hstep
  rw [hpc] at hstep
  dsimp only at hstep
  cases hnext : f.next with
  | some g =>
    rw [hnext] at hstep
    cases hstep
    rw [← RtcField.index_next hnext] at hassigned
    exact ⟨hle, hcompared, hassigned⟩
  | none =>
    rw [hnext] at hstep
    cases hstep
    have hlast : f = .second := by
      cases f <;> first | rfl | cases hnext
    rw [hlast] at hassigned ⊢
    exact loopInv_endPass hle hcompared hassigned rfl

theorem loopInv_wait (hinv : LoopInv clock initial s) (hpc : s.pc = .wait) {regA : BitVec 8}
    (hstep : s.step clock (.access regA) = some s')
    : LoopInv clock initial s' := by
  obtain ⟨hle, hat⟩ := hinv
  rw [hpc] at hat
  unfold RtcState.step at hstep
  rw [hpc] at hstep
  dsimp only at hstep
  split at hstep
  . cases hstep
    refine ⟨hle, ?_⟩
    rw [hpc]
    exact hat
  . cases hstep
    exact ⟨hle, hat, readUpTo_zero _ _ _ _⟩

theorem loopInv_step {action : RtcAction} (hinv : LoopInv clock initial s) (hstep : s.step clock action = some s')
    : LoopInv clock initial s' := by
  have hpc : s.pc ≠ .exited := by
    intro hexited
    rw [s.step_exited clock action hexited] at hstep
    cases hstep
  cases action with
  | tick =>
    rw [s.step_tick clock hpc] at hstep
    cases hstep
    exact loopInv_tick hinv hpc
  | access regA =>
    cases hcase : s.pc with
    | wait => exact loopInv_wait hinv hcase hstep
    | read f => exact loopInv_read hinv hcase hstep
    | exited => exact absurd hcase hpc

theorem loopInv_of_run (hrun : RtcRun clock initial s) : LoopInv clock initial s := by
  induction hrun with
  | refl => exact loopInv_init clock initial
  | tail _ hlast ih =>
    obtain ⟨⟨action, hstep⟩, -⟩ := hlast
    exact loopInv_step ih hstep

theorem accepted_of_run (hrun : RtcRun clock initial s) (hexited : s.pc = .exited)
    : PassAccepted clock initial s := by
  obtain ⟨-, hat⟩ := loopInv_of_run hrun
  rw [hexited] at hat
  exact hat

theorem RtcRun.paced (hrun : RtcRun clock initial s) : s.Paced := by
  cases hrun with
  | refl =>
    intro p hp
    cases hp
  | tail _ hlast => exact hlast.right

/--
The pass was not the first one, and its seconds are those of the pass before it.
-/
theorem PassAccepted.same_instant (h : PassAccepted clock initial s) (hle : s.start ≤ s.now) (hpaced : s.Paced)
    (hinitial : ∀ d, RawReading clock d → rtcDateSame d initial = false)
    : s.start = s.now := by
  have hcompared := h.compared
  have hsame := h.same
  unfold ComparedWith at hcompared
  cases hprevious : s.previous with
  | none =>
    rw [hprevious] at hcompared
    rw [hcompared, hinitial _ (h.pass.rawReading RtcField.index_lt)] at hsame
    cases hsame
  | some p =>
    rw [hprevious] at hcompared
    obtain ⟨m, hpm, hms, hm⟩ := hcompared
    have hbound := hpaced p hprevious
    -- the same seconds, and less than a minute between them
    have heq : (clock.contents s.now).second = (clock.contents m).second := by
      rw [← h.second, ← hm]
      exact setWidth_injective (rtcDateSame_iff.mp hsame .second (by decide))
    have hmod := (clock.second_period s.now m).mp heq
    omega

end Run

section Callers

variable {clock : Clock} {d : Datetime}

/--
`static datetime_t datetime;`
-/
def zeroDatetime : Datetime :=
  ⟨0, 0, 0, 0, 0, 0, 0⟩

theorem RawReading.month_eq (hd : RawReading clock d) : ∃ n, d.month = (clock.contents n).month := by
  obtain ⟨t, -, hread⟩ := hd
  refine ⟨t .month, ?_⟩
  have hmonth : d.month.setWidth 32 = (clock.contents (t .month)).month.setWidth 32 := hread .month
  exact setWidth_injective hmonth

theorem RawReading.year_lt (hd : RawReading clock d) : d.year.toNat < 256 := by
  obtain ⟨t, -, hread⟩ := hd
  have hyear : d.year = (clock.regs (t .year) RtcField.year.selector).setWidth 32 := hread .year
  rw [hyear]
  exact toNat_setWidth_lt _

/--
There is no month 0.
-/
theorem zeroDatetime_notSame (hmonth : ∀ n, (clock.contents n).month ≠ 0) (hd : RawReading clock d)
    : rtcDateSame d zeroDatetime = false := by
  obtain ⟨n, hn⟩ := hd.month_eq
  apply Bool.eq_false_iff.mpr
  intro hsame
  apply hmonth n
  rw [← hn]
  exact setWidth_injective (rtcDateSame_iff.mp hsame .month (by decide))

/--
The year of a result has all its four digits.
-/
theorem year_convertDatetime (regbv : BitVec 8) (hd : d.year.toNat < 256)
    : 2000 ≤ (convertDatetime regbv d).year.toNat := by
  have hcentury : ∀ y : Word, y.toNat < 256 → 2000 ≤ (y + rtcCurrentCentry * 100).toNat := by
    intro y hy
    have hconst : (rtcCurrentCentry * 100).toNat = 2000 := rfl
    rw [BitVec.toNat_add, hconst, Nat.mod_eq_of_lt (by omega)]
    omega
  unfold convertDatetime
  apply hcentury
  split <;> split <;> first | exact hd | exact toNat_setWidth_lt _

theorem convertDatetime_notSame (hd : RawReading clock d) (regbv : BitVec 8) {earlier : Clock} {d' : Datetime}
    (hd' : RawReading earlier d')
    : rtcDateSame d (convertDatetime regbv d') = false := by
  have hlt := hd.year_lt
  have hle := year_convertDatetime regbv hd'.year_lt
  apply Bool.eq_false_iff.mpr
  intro hsame
  have hyear : d.year = (convertDatetime regbv d').year := rtcDateSame_iff.mp hsame .year (by decide)
  rw [← hyear] at hle
  omega

/--
What `datetime` can hold when `test_timer` passes it: no call has been made, or it is the result of the one before.
-/
inductive CallerDatetime : Datetime → Prop where
  | zero : CallerDatetime zeroDatetime
  | result {earlier : Clock} {initial : Datetime} {s : RtcState} (h : CallerDatetime initial)
      (hrun : RtcRun earlier initial s) (hexited : s.pc = .exited) (regbv : BitVec 8)
      : CallerDatetime (convertDatetime regbv s.datetime)

/--
The first pass of a call is never taken for what the caller has passed.
-/
theorem CallerDatetime.notSame {d' : Datetime} (h : CallerDatetime d') (hmonth : ∀ n, (clock.contents n).month ≠ 0)
    (hd : RawReading clock d)
    : rtcDateSame d d' = false := by
  cases h with
  | zero => exact zeroDatetime_notSame hmonth hd
  | result _ hrun hexited regbv =>
    have hraw := (accepted_of_run hrun hexited).pass.rawReading RtcField.index_lt
    exact convertDatetime_notSame hd regbv hraw

end Callers

section Untouched

variable {clock : Clock} {initial : Datetime} {s s' : RtcState}

/--
An iteration in which there is no tick and no update.
-/
theorem RtcRun.pass (hrun : RtcRun clock initial s) (hpc : s.pc = .wait) (hnow : s.now < s.start + 60)
    : RtcRun clock initial
        { s with pc := .read .second, current := s.datetime, datetime := clock.contents s.now }.endPass := by
  have hpaced := hrun.paced
  rcases s with ⟨pc, current, datetime, now, start, previous⟩
  dsimp only at hpc hnow
  subst hpc
  have hnext : ∀ {s s' : RtcState}, RtcRun clock initial s → s.step clock (.access 0) = some s' → s'.now = now →
      s'.previous = previous → RtcRun clock initial s' := by
    intro s s' hrun hstep hnow' hprevious
    refine hrun.tail ⟨⟨_, hstep⟩, ?_⟩
    unfold RtcState.Paced
    rw [hnow', hprevious]
    exact hpaced
  have hsecond := hnext (hnext (hnext (hnext (hnext (hnext (hnext hrun rfl rfl rfl) rfl rfl rfl) rfl rfl rfl)
    rfl rfl rfl) rfl rfl rfl) rfl rfl rfl) rfl rfl rfl
  refine hsecond.tail ⟨⟨.access 0, rfl⟩, ?_⟩
  unfold RtcState.endPass
  split
  . exact hpaced
  . intro p hp
    cases hp
    exact hnow

/--
No tick during the call.
-/
theorem RtcRun.datetime_of_untouched (hrun : RtcRun clock initial s) (hexited : s.pc = .exited) (hnow : s.now = 0)
    : s.datetime = clock.contents 0 := by
  have hstart : s.start = 0 := by
    have hle := (loopInv_of_run hrun).left
    omega
  have hpass := (accepted_of_run hrun hexited).pass
  rw [hstart, hnow] at hpass
  exact hpass.contents RtcField.index_lt

/--
Without ticks and updates the loop ends after two passes at most.
-/
theorem exists_untouchedRun (clock : Clock) (initial : Datetime)
    : ∃ s, RtcRun clock initial s ∧ s.pc = .exited ∧ s.now = 0 := by
  have hfirst : RtcRun clock initial _ := RtcRun.pass .refl rfl (Nat.lt_add_of_pos_right (by decide))
  unfold RtcState.endPass at hfirst
  split at hfirst
  . exact ⟨_, hfirst, rfl, rfl⟩
  . have hsecond := hfirst.pass rfl (Nat.lt_add_of_pos_right (by decide))
    unfold RtcState.endPass at hsecond
    rw [if_pos (rtcDateSame_iff.mpr (fun _ _ => rfl))] at hsecond
    exact ⟨_, hsecond, rfl, rfl⟩

end Untouched

section NotTorn

variable {clock : Clock} {initial : Datetime} {s : RtcState}

/--
Whatever the loop leaves with was in the registers at one instant of its last pass, unless the caller passed what
the first pass could be taken for: the hour is not compared.
-/
theorem time_notTorn (hinitial : ∀ d, RawReading clock d → rtcDateSame d initial = false)
    (hrun : RtcRun clock initial s) (hexited : s.pc = .exited)
    : ∃ n, s.start ≤ n ∧ n ≤ s.now ∧ s.datetime = clock.contents n := by
  have haccepted := accepted_of_run hrun hexited
  have hstart := haccepted.same_instant (loopInv_of_run hrun).left hrun.paced hinitial
  have hpass := haccepted.pass
  rw [hstart] at hpass
  exact ⟨s.now, Nat.le_of_eq hstart, Nat.le_refl _, hpass.contents RtcField.index_lt⟩

/--
10:59:59, in binary.
-/
def lateClock : Clock where
  regs n selector :=
    if selector = RtcField.second.selector then
      BitVec.ofNat 8 ((n + 59) % 60)
    else if selector = RtcField.minute.selector then
      BitVec.ofNat 8 ((n + 3599) / 60 % 60)
    else if selector = RtcField.hour.selector then
      BitVec.ofNat 8 ((n + 39599) / 3600 % 24)
    else
      1
  second_period m n := by
    constructor
    . intro h
      have hnat := congrArg BitVec.toNat h
      rw [if_pos rfl, if_pos rfl, BitVec.toNat_ofNat, BitVec.toNat_ofNat] at hnat
      omega
    . intro h
      rw [if_pos rfl, if_pos rfl]
      congr 1
      omega

/--
The first iteration at `lateClock`. The hour is read before a tick and the minute after it.
-/
theorem RtcRun.tornPass (initial : Datetime)
    : RtcRun lateClock initial
        (RtcState.endPass ⟨.read .second, initial, ⟨1, 1, 1, 1, 10, 0, 0⟩, 1, 0, none⟩) := by
  have hfirst : ∀ {s : RtcState}, s.previous = none → s.Paced := by
    intro s hnone p hp
    rw [hnone] at hp
    cases hp
  have hread : ∀ {d : Datetime} {now : Nat} (f g : RtcField), f.next = some g →
      RtcRun lateClock initial ⟨.read f, initial, d, now, 0, none⟩ →
      RtcRun lateClock initial
        ⟨.read g, initial, d.assign (lateClock.regs now f.selector) f, now, 0, none⟩ := by
    intro d now f g hg hrun
    refine hrun.tail ⟨⟨.access 0, ?_⟩, hfirst rfl⟩
    unfold RtcState.step
    dsimp only
    rw [hg]
  have hstart : RtcRun lateClock initial ⟨.read .year, initial, initial, 0, 0, none⟩ :=
    Relation.ReflTransGen.single ⟨⟨.access 0, rfl⟩, hfirst rfl⟩
  have hhour := hread .weekday .hour rfl (hread .day .weekday rfl (hread .month .day rfl
    (hread .year .month rfl hstart)))
  have hminute : RtcRun lateClock initial
      ⟨.read .minute, initial, ⟨1, 1, 1, 1, 10, initial.minute, initial.second⟩, 0, 0, none⟩ :=
    hread .hour .minute rfl hhour
  have hticked : RtcRun lateClock initial
      ⟨.read .minute, initial, ⟨1, 1, 1, 1, 10, initial.minute, initial.second⟩, 1, 0, none⟩ :=
    hminute.tail ⟨⟨.tick, rfl⟩, hfirst rfl⟩
  have hsecond : RtcRun lateClock initial
      ⟨.read .second, initial, ⟨1, 1, 1, 1, 10, 0, initial.second⟩, 1, 0, none⟩ :=
    hread .minute .second rfl hticked
  have hend : ∀ (d : Datetime) (now : Nat),
      RtcState.step lateClock ⟨.read .second, initial, d, now, 0, none⟩ (.access 0)
        = some (RtcState.endPass
          ⟨.read .second, initial, d.assign (lateClock.regs now RtcField.second.selector) .second, now, 0, none⟩) :=
    fun _ _ => rfl
  refine hsecond.tail ⟨⟨.access 0, hend _ 1⟩, ?_⟩
  unfold RtcState.endPass
  split
  . exact hfirst rfl
  . intro p hp
    cases hp
    exact (by decide : 1 < 0 + 60)

/--
A tick in the first iteration. The second one reads 11:00:00.
-/
theorem time_notTorn_late
    : ∃ s, RtcRun lateClock zeroDatetime s ∧ s.pc = .exited ∧ s.now = 1 ∧ s.datetime.hour = 11
        ∧ ∃ n, s.start ≤ n ∧ n ≤ s.now ∧ s.datetime = lateClock.contents n := by
  have hmonth : ∀ n, (lateClock.contents n).month ≠ 0 := by
    intro n
    show (1 : BitVec 8) ≠ 0
    decide
  have hrun : RtcRun lateClock zeroDatetime ⟨.exited, ⟨1, 1, 1, 1, 10, 0, 0⟩, lateClock.contents 1, 1, 1, some 0⟩ :=
    (RtcRun.tornPass zeroDatetime).pass rfl (by decide)
  exact ⟨_, hrun, rfl, rfl, by decide, time_notTorn (fun _ hd => zeroDatetime_notSame hmonth hd) hrun rfl⟩

theorem lateClock_hour (n : Nat) : (lateClock.contents n).hour ≠ 99 := by
  intro heq
  have hnat := congrArg BitVec.toNat heq
  have hhour : (lateClock.contents n).hour = BitVec.ofNat 8 ((n + 39599) / 3600 % 24) := rfl
  rw [hhour, BitVec.toNat_ofNat] at hnat
  have hconst : (99 : BitVec 8).toNat = 99 := rfl
  omega

/--
The hour is read before the tick and the minute after it. The caller has passed the hour 99, so that what it passed
cannot have been read, but only the other fields are compared.
-/
theorem time_tornHour
    : ¬∀ (clock : Clock) (initial : Datetime) (s : RtcState), ¬RawReading clock initial → RtcRun clock initial s →
        s.pc = .exited → ∃ n, s.start ≤ n ∧ n ≤ s.now ∧ s.datetime = clock.contents n := by
  intro hall
  have hreading : ¬RawReading lateClock ⟨1, 1, 1, 1, 99, 0, 0⟩ := by
    intro hreading
    obtain ⟨t, -, hread⟩ := hreading
    exact lateClock_hour (t .hour) (setWidth_injective (hread .hour)).symm
  have hexit : RtcRun lateClock ⟨1, 1, 1, 1, 99, 0, 0⟩
      ⟨.exited, ⟨1, 1, 1, 1, 99, 0, 0⟩, ⟨1, 1, 1, 1, 10, 0, 0⟩, 1, 0, none⟩ :=
    RtcRun.tornPass _
  obtain ⟨n, -, hn, heq⟩ := hall _ _ _ hreading hexit rfl
  have hcases : n = 0 ∨ n = 1 := by
    dsimp only at hn
    omega
  cases hcases with
  | inl hzero =>
    rw [hzero] at heq
    exact absurd (congrArg Datetime.minute heq) (by decide)
  | inr hone =>
    rw [hone] at heq
    exact absurd (congrArg Datetime.hour heq) (by decide)

end NotTorn

end AwaOS
