import AwaOS.Timer.Impl

/-!
When a timer has to fire, and what its counter and the record of past calls look like while it waits.
-/

namespace AwaOS

namespace Registration

def Periodic (r : Registration) : Prop :=
  r.flags &&& timerModePeriodic ≠ 0

instance (r : Registration) : Decidable r.Periodic :=
  inferInstanceAs (Decidable (_ ≠ _))

/--
The timer has to fire on the `v`-th `timer_update`: for a one-shot timer that is the `ticks`-th after its
registration, for a periodic one every `ticks`-th.
-/
def Due (r : Registration) (v : Nat) : Prop :=
  if r.Periodic then r.since < v ∧ r.ticks.toNat ∣ v - r.since else v = r.since + r.ticks.toNat

instance (r : Registration) (v : Nat) : Decidable (r.Due v) :=
  inferInstanceAs (Decidable (ite (r.Periodic) _ _))

/--
The call that the `i`-th registration asks for, on the `v`-th `timer_update`.
-/
def call (r : Registration) (i v : Nat) : Call :=
  { owner := some i, callback := r.callback, payload := r.payload, update := v }

theorem Due.since_lt {r : Registration} {v : Nat} (h : r.Due v) (hticks : 0 < r.ticks.toNat) : r.since < v := by
  unfold Due at h
  split at h
  . exact h.1
  . omega

theorem Due.eq_of_oneShot {r : Registration} {v : Nat} (h : r.Due v) (honce : ¬r.Periodic)
    : v = r.since + r.ticks.toNat := by
  unfold Due at h
  rw [if_neg honce] at h
  exact h

end Registration

/--
The timer belongs to the registration.
-/
structure LxTimer.Of (t : LxTimer) (r : Registration) : Prop where
  deadline : t.deadline = r.ticks
  callback : t.callback = r.callback
  payload : t.payload = r.payload
  flags : t.flags = r.flags

/--
The timer as it is after the `u`-th `timer_update` has dealt with it.
-/
structure LxTimer.Waiting (t : LxTimer) (r : Registration) (u : Nat) : Prop where
  of : t.Of r
  pos : 0 < r.ticks.toNat
  since_le : r.since ≤ u
  counter : t.counter.toNat + (u - r.since) % r.ticks.toNat = r.ticks.toNat
  oneShot : ¬r.Periodic → u < r.since + r.ticks.toNat

namespace LxTimer.Waiting

variable {t : LxTimer} {r : Registration} {u : Nat}

theorem init (hof : t.Of r) (hticks : r.ticks ≠ 0) (hcounter : t.counter = r.ticks) : t.Waiting r r.since := by
  have hpos := BitVec.toNat_pos_of_ne_zero hticks
  constructor
  . exact hof
  . exact hpos
  . exact Nat.le_refl _
  . rw [hcounter, Nat.sub_self, Nat.zero_mod, Nat.add_zero]
  . intro _
    omega

theorem counter_pos (h : t.Waiting r u) : 0 < t.counter.toNat := by
  have hmod := Nat.mod_lt (u - r.since) h.pos
  have hcounter := h.counter
  omega

theorem counter_pred (h : t.Waiting r u) : (t.counter - 1).toNat = t.counter.toNat - 1 := by
  have hpos := h.counter_pos
  have hlt := t.counter.isLt
  have hone : (1 : Word).toNat = 1 := rfl
  rw [BitVec.toNat_sub, hone]
  omega

theorem elapsed_succ (h : t.Waiting r u) : u + 1 - r.since = (u - r.since) + 1 := by
  have hle := h.since_le
  omega

theorem due (h : t.Waiting r u) (hzero : t.counter - 1 = 0) : r.Due (u + 1) := by
  have hpred := h.counter_pred
  have hpos := h.counter_pos
  have hcounter := h.counter
  have hle := h.since_le
  have hz : (0 : Word).toNat = 0 := rfl
  rw [hzero, hz] at hpred
  unfold Registration.Due
  split
  . constructor
    . omega
    . rw [h.elapsed_succ, Nat.dvd_iff_mod_eq_zero, Nat.add_mod, ← Nat.add_mod_mod]
      have hsum : (u - r.since) % r.ticks.toNat + 1 = r.ticks.toNat := by omega
      rw [Nat.add_mod_mod, Nat.add_mod_mod, hsum, Nat.mod_self]
  . next honce =>
    have hlt := h.oneShot honce
    rw [Nat.mod_eq_of_lt (by omega)] at hcounter
    omega

theorem next (h : t.Waiting r u) (hne : t.counter - 1 ≠ 0)
    : ({ t with counter := t.counter - 1 } : LxTimer).Waiting r (u + 1) ∧ ¬r.Due (u + 1) := by
  have hpred := h.counter_pred
  have hpos := h.counter_pos
  have hcounter := h.counter
  have hle := h.since_le
  have hlarge : 1 < t.counter.toNat := by
    have hnz := BitVec.toNat_pos_of_ne_zero hne
    omega
  have hmod : (u + 1 - r.since) % r.ticks.toNat = (u - r.since) % r.ticks.toNat + 1 := by
    rw [h.elapsed_succ, ← Nat.mod_add_mod]
    apply Nat.mod_eq_of_lt
    omega
  constructor
  . constructor
    . exact ⟨h.of.deadline, h.of.callback, h.of.payload, h.of.flags⟩
    . exact h.pos
    . omega
    . simp only
      omega
    . intro honce
      have hlt := h.oneShot honce
      rw [Nat.mod_eq_of_lt (by omega)] at hcounter
      omega
  . unfold Registration.Due
    split
    . intro hdue
      have hzero := Nat.dvd_iff_mod_eq_zero.mp hdue.2
      omega
    . next honce =>
      have hlt := h.oneShot honce
      rw [Nat.mod_eq_of_lt (by omega)] at hcounter
      omega

theorem reload (hof : t.Of r) (hpos : 0 < r.ticks.toNat) (hdue : r.Due u) (hperiodic : r.Periodic)
    : ({ t with counter := t.deadline } : LxTimer).Waiting r u := by
  unfold Registration.Due at hdue
  rw [if_pos hperiodic] at hdue
  constructor
  . exact ⟨hof.deadline, hof.callback, hof.payload, hof.flags⟩
  . exact hpos
  . omega
  . simp only
    rw [hof.deadline, Nat.dvd_iff_mod_eq_zero.mp hdue.2, Nat.add_zero]
  . intro honce
    exact absurd hperiodic honce

end LxTimer.Waiting

/--
The record of the `i`-th registration: it has been called on the updates up to the `u`-th on which it was
due, and released on those up to the `w`-th.
-/
structure Timers.Recorded (s : Timers) (i : Nat) (r : Registration) (u w : Nat) : Prop where
  called : r.callback ≠ 0 → ∀ v, s.called.count (r.call i v) = if v ≤ u ∧ r.Due v then 1 else 0
  released : ∀ v, s.released.count ⟨some i, v⟩ = if v ≤ w ∧ ¬r.Periodic ∧ r.Due v then 1 else 0

/--
The two states agree on what has happened to the `i`-th registration.
-/
structure Timers.SameRecord (s s' : Timers) (i : Nat) : Prop where
  registered : ∀ r, s.registered[i]? = some r → s'.registered[i]? = some r
  called : ∀ c : Call, c.owner = some i → s'.called.count c = s.called.count c
  released : ∀ f : Release, f.owner = some i → s'.released.count f = s.released.count f

namespace Timers

variable {s s' : Timers} {i u w : Nat} {r : Registration}

theorem SameRecord.of_eq (hregistered : s'.registered = s.registered) (hcalled : s'.called = s.called)
    (hreleased : s'.released = s.released)
    : SameRecord s s' i := by
  constructor
  . intro r hr
    rw [hregistered, hr]
  . intro c _
    rw [hcalled]
  . intro f _
    rw [hreleased]

namespace Recorded

theorem congr (h : s.Recorded i r u w) (hsame : SameRecord s s' i) : s'.Recorded i r u w := by
  constructor
  . intro hcallback v
    rw [hsame.called (r.call i v) rfl]
    exact h.called hcallback v
  . intro v
    rw [hsame.released _ rfl]
    exact h.released v

theorem fresh (hcalled : ∀ c ∈ s.called, c.owner ≠ some i) (hreleased : ∀ f ∈ s.released, f.owner ≠ some i)
    (hticks : 0 < r.ticks.toNat)
    : s.Recorded i r r.since r.since := by
  have hnot : ∀ v, ¬(v ≤ r.since ∧ r.Due v) := by
    intro v hv
    have hlt := hv.2.since_lt hticks
    omega
  constructor
  . intro _ v
    rw [if_neg (hnot v), List.count_eq_zero]
    intro hin
    exact hcalled _ hin rfl
  . intro v
    rw [if_neg (fun hv => hnot v ⟨hv.1, hv.2.2⟩), List.count_eq_zero]
    intro hin
    exact hreleased _ hin rfl

/--
A bound is moved past an update on which nothing has to happen.
-/
theorem count_next {P : Nat → Prop} [DecidablePred P] (h : ¬P (u + 1)) (v : Nat)
    : (if v ≤ u ∧ P v then 1 else 0) = (if v ≤ u + 1 ∧ P v then 1 else 0) := by
  by_cases hv : v = u + 1
  . subst hv
    rw [if_neg (by simp [h]), if_neg (by simp [h])]
  . have hiff : v ≤ u ↔ v ≤ u + 1 := by omega
    simp only [hiff]

/--
A bound is moved past an update on which something has to happen.
-/
theorem count_due {P : Nat → Prop} [DecidablePred P] (h : P (u + 1)) (v : Nat)
    : (if v ≤ u ∧ P v then 1 else 0) + (if v = u + 1 then 1 else 0) = (if v ≤ u + 1 ∧ P v then 1 else 0) := by
  by_cases hv : v = u + 1
  . subst hv
    rw [if_neg (by omega), if_pos rfl, if_pos ⟨Nat.le_refl _, h⟩]
  . have hiff : v ≤ u ↔ v ≤ u + 1 := by omega
    simp only [hiff, if_neg hv, Nat.add_zero]

theorem next (h : s.Recorded i r u u) (hdue : ¬r.Due (u + 1)) : s.Recorded i r (u + 1) (u + 1) := by
  constructor
  . intro hcallback v
    rw [h.called hcallback v]
    exact count_next hdue v
  . intro v
    rw [h.released v]
    apply count_next
    intro hrelease
    exact hdue hrelease.2

theorem call (h : s.Recorded i r u u) (hdue : r.Due (u + 1))
    (hcalled : r.callback ≠ 0 → s'.called = r.call i (u + 1) :: s.called) (hreleased : s'.released = s.released)
    : s'.Recorded i r (u + 1) u := by
  constructor
  . intro hcallback v
    have hbeq : (r.call i (u + 1) == r.call i v) = decide (v = u + 1) := by
      simp only [Registration.call, beq_eq_decide, Call.mk.injEq, true_and, eq_comm]
    rw [hcalled hcallback, List.count_cons, h.called hcallback v, hbeq]
    simp only [decide_eq_true_eq]
    exact count_due hdue v
  . intro v
    rw [hreleased]
    exact h.released v

theorem reload (h : s.Recorded i r (u + 1) u) (hperiodic : r.Periodic) : s.Recorded i r (u + 1) (u + 1) := by
  constructor
  . exact h.called
  . intro v
    rw [h.released v]
    apply count_next
    intro hrelease
    exact hrelease.1 hperiodic

theorem release (h : s.Recorded i r (u + 1) u) (honce : ¬r.Periodic) (hdue : r.Due (u + 1))
    (hcalled : s'.called = s.called) (hreleased : s'.released = ⟨some i, u + 1⟩ :: s.released)
    : s'.Recorded i r (u + 1) (u + 1) := by
  constructor
  . intro hcallback v
    rw [hcalled]
    exact h.called hcallback v
  . intro v
    have hbeq : ((⟨some i, u + 1⟩ : Release) == ⟨some i, v⟩) = decide (v = u + 1) := by
      simp only [beq_eq_decide, Release.mk.injEq, true_and, eq_comm]
    rw [hreleased, List.count_cons, h.released v, hbeq]
    simp only [decide_eq_true_eq]
    apply count_due
    exact ⟨honce, hdue⟩

end Recorded

end Timers

end AwaOS
