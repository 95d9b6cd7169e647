import AwaOS.Page.Basic
import Mathlib.Logic.Relation

/-!
The calibration in `timer_init`, from where it enables the interrupts. The interrupts of the RTC and of the APIC
timer come at any point of it.
-/

namespace AwaOS

section Impl

def sysTimerFrequencyHz : Word := 2048

def rtcTimerBaseFrequency : Word := 1024

def apicCalibrationConst : Word := 0x100000

/--
The members of `struct lx_timer_context` other than `active_timers`.
-/
structure LxTimerContext where
  baseFrequency : Word
  runningFrequency : Word
  tickInterval : Word
  deriving DecidableEq

/--
What `timer_init` does next.
-/
inductive TimerInitPc where
  /-- `wait_until(apic_timer_done);` -/
  | waitUntil
  /-- `timer_ctx->running_frequency = frequency;` -/
  | setRunning
  /-- `timer_ctx->tick_interval = timer_ctx->base_frequency / frequency;` -/
  | setInterval
  /-- The two `intr_unsubscribe`s, the write of `APIC_TIMER_LVT` and the `intr_subscribe` of `timer_update`. -/
  | cleanup
  /-- `apic_write_reg(APIC_TIMER_ICR, timer_ctx->tick_interval);` -/
  | startTimer
  | returned
  deriving DecidableEq

/--
`fault` is the exception of a division by zero. `rtcTicks` is not a variable of the program: it counts the RTC
interrupts that were delivered before the first one of the APIC timer.
-/
structure TimerInit where
  pc : TimerInitPc
  ctx : LxTimerContext
  rtcCounter : Word
  apicTimerDone : BitVec 8
  /-- The APIC timer is in its one-shot mode and has not run down. -/
  oneShot : Bool
  /-- The mode in `APIC_TIMER_LVT`. -/
  periodic : Bool
  /-- `APIC_TIMER_ICR` -/
  icr : Word
  fault : Bool
  rtcTicks : Nat
  deriving DecidableEq

/--
At `cpu_enable_interrupt();`. The other members of the context are what the block from `lxmalloc` holds.
-/
def TimerInit.init (runningFrequency tickInterval : Word) : TimerInit where
  pc := .waitUntil
  ctx := ⟨0, runningFrequency, tickInterval⟩
  rtcCounter := 0
  apicTimerDone := 0
  oneShot := true
  periodic := false
  icr := apicCalibrationConst
  fault := false
  rtcTicks := 0

def tempIntrRoutineRtcTick (s : TimerInit) : TimerInit :=
  { s with rtcCounter := s.rtcCounter + 1 }

def tempIntrRoutineApicTimer (s : TimerInit) : TimerInit :=
  if s.rtcCounter = 0 then
    { s with fault := true }
  else
    { s with
      ctx := { s.ctx with baseFrequency := apicCalibrationConst / s.rtcCounter * rtcTimerBaseFrequency }
      apicTimerDone := 1 }

/--
One statement of `timer_init`.
-/
def TimerInit.next (frequency : Word) (s : TimerInit) : TimerInit :=
  match s.pc with
  | .waitUntil => if s.apicTimerDone = 0 then s else { s with pc := .setRunning }
  | .setRunning => { s with ctx := { s.ctx with runningFrequency := frequency }, pc := .setInterval }
  | .setInterval => { s with ctx := { s.ctx with tickInterval := s.ctx.baseFrequency / frequency }, pc := .cleanup }
  | .cleanup => { s with periodic := true, pc := .startTimer }
  | .startTimer => { s with icr := s.ctx.tickInterval, pc := .returned }
  | .returned => s

inductive TimerInitAction where
  | rtcTick
  | apicTimer
  | next

/--
The RTC interrupt is handled until it is unsubscribed, and the APIC timer runs down once.
-/
def TimerInit.step (frequency : Word) (s : TimerInit) (action : TimerInitAction) : Option TimerInit :=
  if s.fault then
    none
  else
    match action with
    | .rtcTick =>
      if s.pc = .startTimer ∨ s.pc = .returned then
        none
      else
        some { tempIntrRoutineRtcTick s with rtcTicks := if s.oneShot then s.rtcTicks + 1 else s.rtcTicks }
    | .apicTimer =>
      if s.oneShot then
        some { tempIntrRoutineApicTimer s with oneShot := false }
      else
        none
    | .next => if s.pc = .returned then none else some (s.next frequency)

/--
Every order of the interrupts and of what `timer_init` does itself.
-/
inductive CalibrationRun (frequency : Word) : TimerInit → Prop where
  | init (runningFrequency tickInterval : Word) : CalibrationRun frequency (.init runningFrequency tickInterval)
  | step {s s' : TimerInit} {action : TimerInitAction} (h : CalibrationRun frequency s)
      (hstep : s.step frequency action = some s')
      : CalibrationRun frequency s'

end Impl

section Invariant

variable {frequency : Word} {s s' : TimerInit}

/--
The handler of the APIC timer has divided by the number of ticks, and what comes after it uses the result.
-/
structure TimerInit.Measured (frequency : Word) (s : TimerInit) : Prop where
  done : s.apicTimerDone = 1
  counted : BitVec.ofNat 32 s.rtcTicks ≠ 0
  base : s.ctx.baseFrequency = apicCalibrationConst / BitVec.ofNat 32 s.rtcTicks * rtcTimerBaseFrequency
  interval : s.pc = .cleanup ∨ s.pc = .startTimer ∨ s.pc = .returned →
    s.ctx.tickInterval = s.ctx.baseFrequency / frequency
  periodic : s.pc = .startTimer ∨ s.pc = .returned → s.periodic = true
  started : s.pc = .returned → s.icr = s.ctx.tickInterval

structure TimerInit.Measuring (s : TimerInit) : Prop where
  waits : s.pc = .waitUntil
  notDone : s.apicTimerDone = 0
  counter : s.rtcCounter = BitVec.ofNat 32 s.rtcTicks

def TimerInit.Inv (frequency : Word) (s : TimerInit) : Prop :=
  if s.oneShot then
    s.Measuring ∧ s.fault = false
  else if s.fault then
    s.pc = .waitUntil ∧ BitVec.ofNat 32 s.rtcTicks = 0
  else
    s.Measured frequency

theorem TimerInit.inv_init (runningFrequency tickInterval : Word)
    : (TimerInit.init runningFrequency tickInterval).Inv frequency :=
  ⟨⟨rfl, rfl, rfl⟩, rfl⟩

theorem TimerInit.inv_rtcTick (hinv : s.Inv frequency) (hfault : s.fault = false)
    : ({ tempIntrRoutineRtcTick s with rtcTicks := if s.oneShot then s.rtcTicks + 1 else s.rtcTicks } : TimerInit).Inv
        frequency := by
  unfold TimerInit.Inv at *
  unfold tempIntrRoutineRtcTick
  dsimp only
  cases hshot : s.oneShot with
  | true =>
    rw [hshot] at hinv
    obtain ⟨hmeasuring, -⟩ := hinv
    refine ⟨⟨hmeasuring.waits, hmeasuring.notDone, ?_⟩, hfault⟩
    show s.rtcCounter + 1 = BitVec.ofNat 32 (s.rtcTicks + 1)
    rw [hmeasuring.counter, BitVec.ofNat_add]
    rfl
  | false =>
    rw [hshot, hfault] at hinv
    rw [hfault]
    exact ⟨hinv.done, hinv.counted, hinv.base, hinv.interval, hinv.periodic, hinv.started⟩

theorem TimerInit.inv_apicTimer (hinv : s.Inv frequency) (hshot : s.oneShot = true)
    : ({ tempIntrRoutineApicTimer s with oneShot := false } : TimerInit).Inv frequency := by
  unfold TimerInit.Inv at *
  rw [hshot] at hinv
  obtain ⟨hmeasuring, hfault⟩ := hinv
  have hpc := hmeasuring.waits
  unfold tempIntrRoutineApicTimer
  split
  . next hzero => exact ⟨hpc, hmeasuring.counter.symm.trans hzero⟩
  . next hne =>
    rw [hmeasuring.counter] at hne ⊢
    rw [hfault]
    refine ⟨rfl, hne, rfl, ?_, ?_, ?_⟩
    . intro hlater
      rw [hpc] at hlater
      cases hlater <;> contradiction
    . intro hlater
      rw [hpc] at hlater
      cases hlater <;> contradiction
    . intro hlater
      rw [hpc] at hlater
      cases hlater

theorem TimerInit.oneShot_next (s : TimerInit) (frequency : Word) : (s.next frequency).oneShot = s.oneShot := by
  unfold TimerInit.next
  split
  . split <;> rfl
  all_goals rfl

theorem TimerInit.fault_next (s : TimerInit) (frequency : Word) : (s.next frequency).fault = s.fault := by
  unfold TimerInit.next
  split
  . split <;> rfl
  all_goals rfl

theorem TimerInit.measured_next (h : s.Measured frequency) : (s.next frequency).Measured frequency := by
  rcases s with ⟨pc, ctx, rtcCounter, apicTimerDone, oneShot, periodic, icr, fault, rtcTicks⟩
  have hdone : ¬apicTimerDone = 0 := by
    have hone : apicTimerDone = 1 := h.done
    rw [hone]
    decide
  cases pc with
  | waitUntil =>
    unfold TimerInit.next
    dsimp only
    rw [if_neg hdone]
    exact ⟨h.done, h.counted, h.base, by simp, by simp, by simp⟩
  | setRunning => exact ⟨h.done, h.counted, h.base, by simp [next], by simp [next], by simp [next]⟩
  | setInterval => exact ⟨h.done, h.counted, h.base, fun _ => rfl, by simp [next], by simp [next]⟩
  | cleanup => exact ⟨h.done, h.counted, h.base, fun _ => h.interval (Or.inl rfl), fun _ => rfl, by simp [next]⟩
  | startTimer =>
    exact ⟨h.done, h.counted, h.base, fun _ => h.interval (Or.inr (Or.inl rfl)), fun _ => h.periodic (Or.inl rfl),
      fun _ => rfl⟩
  | returned => exact h

theorem TimerInit.inv_next (hinv : s.Inv frequency) (hfault : s.fault = false)
    : (s.next frequency).Inv frequency := by
  unfold TimerInit.Inv at *
  cases hshot : s.oneShot with
  | true =>
    rw [hshot] at hinv
    have hsame : s.next frequency = s := by
      unfold TimerInit.next
      rw [hinv.left.waits]
      dsimp only
      rw [if_pos hinv.left.notDone]
    rw [hsame, hshot]
    exact hinv
  | false =>
    rw [hshot, hfault] at hinv
    rw [s.oneShot_next, s.fault_next, hshot, hfault]
    exact TimerInit.measured_next hinv

theorem CalibrationRun.inv (hrun : CalibrationRun frequency s) : s.Inv frequency := by
  induction hrun with
  | init runningFrequency tickInterval => exact TimerInit.inv_init runningFrequency tickInterval
  | @step s s' action _ hstep ih =>
    unfold TimerInit.step at hstep
    split at hstep
    . cases hstep
    . next hno =>
      have hfault := Bool.eq_false_iff.mpr hno
      cases action with
      | rtcTick =>
        dsimp only at hstep
        split at hstep
        . cases hstep
        . cases hstep
          exact TimerInit.inv_rtcTick ih hfault
      | apicTimer =>
        dsimp only at hstep
        split at hstep
        . next hshot =>
          cases hstep
          exact TimerInit.inv_apicTimer ih hshot
        . cases hstep
      | next =>
        dsimp only at hstep
        split at hstep
        . cases hstep
        . cases hstep
          exact TimerInit.inv_next ih hfault

end Invariant

section End

variable {frequency : Word} {s : TimerInit}

/--
`timer_init` has returned, or the processor has stopped at a division by zero.
-/
def TimerInit.Ended (s : TimerInit) : Prop :=
  s.fault = true ∨ s.pc = .returned

/--
`timer_init` runs on its own.
-/
def TimerInit.RunsTo (frequency : Word) : TimerInit → TimerInit → Prop :=
  Relation.ReflTransGen (fun s s' => s.step frequency .next = some s')

/--
How many statements are left.
-/
def TimerInitPc.left : TimerInitPc → Nat
  | waitUntil => 5
  | setRunning => 4
  | setInterval => 3
  | cleanup => 2
  | startTimer => 1
  | returned => 0

theorem TimerInit.left_next (frequency : Word) (hdone : s.apicTimerDone ≠ 0) (hpc : s.pc ≠ .returned)
    : (s.next frequency).pc.left + 1 = s.pc.left := by
  unfold TimerInit.next
  cases hcase : s.pc with
  | waitUntil =>
    dsimp only
    rw [if_neg hdone]
    rfl
  | returned => exact absurd hcase hpc
  | _ => rfl

theorem TimerInit.runsTo_end (hmeasured : s.Measured frequency) (hfault : s.fault = false)
    : ∃ s', s.RunsTo frequency s' ∧ s'.Ended := by
  induction hleft : s.pc.left generalizing s with
  | zero =>
    have hreturned : s.pc = .returned := by
      cases hcase : s.pc with
      | returned => rfl
      | _ =>
        rw [hcase] at hleft
        cases hleft
    exact ⟨s, .refl, Or.inr hreturned⟩
  | succ n ih =>
    have hpc : s.pc ≠ .returned := by
      intro hreturned
      rw [hreturned] at hleft
      cases hleft
    have hstep : s.step frequency .next = some (s.next frequency) := by
      unfold TimerInit.step
      rw [hfault]
      exact if_neg hpc
    have hdone : s.apicTimerDone ≠ 0 := by
      rw [hmeasured.done]
      decide
    have hlast := TimerInit.left_next frequency hdone hpc
    obtain ⟨s', hruns, hended⟩ := ih (TimerInit.measured_next hmeasured)
      (by rw [s.fault_next]; exact hfault) (by omega)
    exact ⟨s', hruns.head hstep, hended⟩

end End

section Quotient

variable {k : Nat}

theorem toNat_ticks (hk : k < 2 ^ 32) : (BitVec.ofNat 32 k).toNat = k := by
  rw [BitVec.toNat_ofNat, Nat.mod_eq_of_lt hk]

theorem ticks_eq_zero_iff (hk : k < 2 ^ 32) : BitVec.ofNat 32 k = 0 ↔ k = 0 := by
  constructor
  . intro hzero
    rw [← toNat_ticks hk, hzero]
    rfl
  . intro hzero
    rw [hzero]
    rfl

/--
The division comes first, so that the product fits.
-/
theorem toNat_base (hk : k < 2 ^ 32)
    : (apicCalibrationConst / BitVec.ofNat 32 k * rtcTimerBaseFrequency).toNat = 0x100000 / k * 1024 := by
  have hle : 0x100000 / k ≤ 0x100000 := Nat.div_le_self _ _
  rw [BitVec.toNat_mul, BitVec.toNat_udiv, toNat_ticks hk]
  show 0x100000 / k * 1024 % 2 ^ 32 = 0x100000 / k * 1024
  rw [Nat.mod_eq_of_lt (by omega)]

theorem interval_pos_iff (hpos : 0 < k) (hk : k < 2 ^ 32)
    : 0 < apicCalibrationConst / BitVec.ofNat 32 k * rtcTimerBaseFrequency / sysTimerFrequencyHz
        ↔
      k ≤ 0x80000 := by
  rw [BitVec.lt_def, BitVec.toNat_udiv, toNat_base hk]
  show 0 < 0x100000 / k * 1024 / 2048 ↔ _
  have htwo : 2 ≤ 0x100000 / k ↔ 2 * k ≤ 0x100000 := Nat.le_div_iff_mul_le hpos
  omega

end Quotient

section Calibrated

variable {s : TimerInit}

/--
The APIC timer runs at the frequency of the system.
-/
structure TimerInit.Started (s : TimerInit) : Prop where
  base : 0 < s.ctx.baseFrequency
  interval : s.ctx.tickInterval = s.ctx.baseFrequency / sysTimerFrequencyHz
  interval_pos : 0 < s.ctx.tickInterval
  periodic : s.periodic = true
  icr : s.icr = s.ctx.tickInterval

/--
Once the APIC timer has run down, `timer_init` comes to an end. It has started the timer then exactly if there
were as many RTC ticks before as its divisions can take.
-/
theorem timerInit_calibrates_iff (hrun : CalibrationRun sysTimerFrequencyHz s) (hfired : s.oneShot = false)
    (hk : s.rtcTicks < 2 ^ 32)
    : (∃ s', s.RunsTo sysTimerFrequencyHz s' ∧ s'.Ended)
        ∧ (s.Ended → (s.fault = false ∧ s.Started ↔ 1 ≤ s.rtcTicks ∧ s.rtcTicks ≤ 0x80000)) := by
  have hinv := hrun.inv
  unfold TimerInit.Inv at hinv
  rw [hfired] at hinv
  cases hfault : s.fault with
  | true =>
    rw [hfault] at hinv
    have hzero := (ticks_eq_zero_iff hk).mp hinv.right
    refine ⟨⟨s, .refl, Or.inl hfault⟩, ?_⟩
    intro _
    constructor
    . intro hno
      cases hno.left
    . intro hmany
      omega
  | false =>
    rw [hfault] at hinv
    have hmeasured : s.Measured sysTimerFrequencyHz := hinv
    have hpos : s.rtcTicks ≠ 0 := fun hzero => hmeasured.counted ((ticks_eq_zero_iff hk).mpr hzero)
    refine ⟨TimerInit.runsTo_end hmeasured hfault, ?_⟩
    intro hended
    have hreturned : s.pc = .returned := hended.resolve_left (by rw [hfault]; decide)
    have hinterval := hmeasured.interval (Or.inr (Or.inr hreturned))
    have hiff := interval_pos_iff (Nat.pos_of_ne_zero hpos) hk
    rw [← hmeasured.base, ← hinterval] at hiff
    constructor
    . intro hstarted
      exact ⟨Nat.pos_of_ne_zero hpos, hiff.mp hstarted.right.interval_pos⟩
    . intro hmany
      have hbase : 0 < s.ctx.baseFrequency := by
        have hquotient : 0 < 0x100000 / s.rtcTicks := Nat.div_pos (by omega) (Nat.pos_of_ne_zero hpos)
        rw [hmeasured.base, BitVec.lt_def, toNat_base hk]
        exact Nat.mul_pos hquotient (by decide)
      exact ⟨rfl, hbase, hinterval, hiff.mpr hmany.right, hmeasured.periodic (Or.inr hreturned),
        hmeasured.started hreturned⟩

/--
One tick of the RTC, then the APIC timer, then `timer_init` up to its end.
-/
theorem timerInit_calibrates_iff_oneTick
    : ∃ s, CalibrationRun sysTimerFrequencyHz s ∧ s.rtcTicks = 1 ∧ s.pc = .returned ∧ s.fault = false
        ∧ s.Started := by
  have hticked := @CalibrationRun.step sysTimerFrequencyHz _ _ .rtcTick (.init 0 0) rfl
  have hfired := @CalibrationRun.step sysTimerFrequencyHz _ _ .apicTimer hticked rfl
  have hwaited := @CalibrationRun.step sysTimerFrequencyHz _ _ .next hfired rfl
  have hrunning := @CalibrationRun.step sysTimerFrequencyHz _ _ .next hwaited rfl
  have hinterval := @CalibrationRun.step sysTimerFrequencyHz _ _ .next hrunning rfl
  have hcleaned := @CalibrationRun.step sysTimerFrequencyHz _ _ .next hinterval rfl
  have hreturned := @CalibrationRun.step sysTimerFrequencyHz _ _ .next hcleaned rfl
  have hiff := (timerInit_calibrates_iff hreturned rfl (by decide)).2 (Or.inr rfl)
  exact ⟨_, hreturned, rfl, rfl, hiff.mpr ⟨by decide, by decide⟩⟩

/--
The APIC timer comes first.
-/
theorem timerInit_dividesByZero
    : ¬∀ s, CalibrationRun sysTimerFrequencyHz s → s.Ended → s.rtcTicks < 2 ^ 32 → s.fault = false ∧ s.Started := by
  intro hall
  have hrun : CalibrationRun sysTimerFrequencyHz { TimerInit.init 0 0 with fault := true, oneShot := false } :=
    @CalibrationRun.step _ _ _ .apicTimer (.init 0 0) rfl
  have hno := (hall _ hrun (Or.inl rfl) (by decide)).left
  cases hno

end Calibrated

end AwaOS
