import AwaOS.Timer.Steps

/-!
Whole runs: the timers are on schedule as long as every timer that is released has a `prev` pointer that
leads to the element before it. `llist_delete` gives the element after the deleted one a `prev` pointer to
itself, so that two neighbours that expire one after the other are enough to break the list.
-/

namespace AwaOS

/--
Every timer is registered for at least one tick.
-/
def TimerAction.AsksTicks : TimerAction → Prop
  | .timerRun _ ticks _ _ _ => ticks ≠ 0
  | _ => True

instance : DecidablePred TimerAction.AsksTicks
  | .timerRun _ _ _ _ _ => instDecidableNot
  | .timerUpdate => instDecidableTrue
  | .visit => instDecidableTrue
  | .finish _ _ => instDecidableTrue

namespace Timers

/--
The timer that the action takes out of the list.
-/
def deletes (s : Timers) (a : TimerAction) : Option Word :=
  match a, s.phase with
  | .finish _ _, .expired pos _ => if (s.timers pos).flags &&& timerModePeriodic = 0 then some pos else none
  | _, _ => none

/--
The `prev` pointer of a timer that is taken out of the list leads to the element before it.
-/
def Removable (s : Timers) (a : TimerAction) : Prop :=
  match s.deletes a with
  | none => True
  | some pos => PrevRight s.links pos

instance (s : Timers) (a : TimerAction) : Decidable (s.Removable a) :=
  match h : s.deletes a with
  | none => isTrue (by unfold Removable; rw [h]; trivial)
  | some pos => decidable_of_iff (PrevRight s.links pos) (by unfold Removable; rw [h])

/--
The `v`-th `timer_update` has returned.
-/
def Ended (s : Timers) (v : Nat) : Prop :=
  v < s.updates ∨ v = s.updates ∧ s.phase = .idle

/--
The `i`-th registration has been called once on every update on which it is due, and released once on the
last of them. On the updates that have not returned yet, this may still be outstanding.
-/
structure FiresOnSchedule (s : Timers) (i : Nat) (r : Registration) : Prop where
  called : r.callback ≠ 0 → ∀ v, s.Ended v → s.called.count (r.call i v) = if r.Due v then 1 else 0
  called_le : r.callback ≠ 0 → ∀ v, s.called.count (r.call i v) ≤ if r.Due v then 1 else 0
  released : ∀ v, s.Ended v → s.released.count ⟨some i, v⟩ = if ¬r.Periodic ∧ r.Due v then 1 else 0
  released_le : ∀ v, s.released.count ⟨some i, v⟩ ≤ if ¬r.Periodic ∧ r.Due v then 1 else 0
  released_le_called : r.callback ≠ 0 → ∀ v, s.released.count ⟨some i, v⟩ ≤ s.called.count (r.call i v)

/--
The timers fire exactly on schedule, and nothing else is called or released. A traversal enters the body of
its loop at most once for each timer that was active when it began.
-/
structure OnSchedule (s : Timers) : Prop where
  fires : ∀ i r, s.registered[i]? = some r → s.FiresOnSchedule i r
  calledOwn : ∀ c ∈ s.called, ∃ (i : Nat) (r : Registration), s.registered[i]? = some r ∧ c = r.call i c.update
  releasedOwn : ∀ f ∈ s.released, ∃ (i : Nat) (r : Registration), s.registered[i]? = some r ∧ f.owner = some i
  visits_le : s.visits ≤ s.active

variable {s s' : Timers} {p : Word} {i past : Nat} {r : Registration} {done cur late : List Word}

theorem Inv.step {a : TimerAction} (h : s.Inv past done cur late) (hticks : a.AsksTicks)
    (hright : s.Removable a) (hstep : s.step a = some s')
    : ∃ past done cur late, s'.Inv past done cur late := by
  cases step_iff.mp hstep with
  | @timerRun timer ticks callback payload flags hmay hfree =>
    by_cases hnull : timer = 0
    . refine ⟨past, done, cur, late, ?_⟩
      unfold Timers.timerRun
      rw [if_pos hnull]
      exact h
    . exact ⟨past, timer :: done, cur, late, h.timerRun hmay hfree hnull hticks⟩
  | timerUpdate hphase => exact ⟨s.updates, [], [], done, h.timerUpdate hphase⟩
  | visit hphase => exact ⟨past, h.visit hphase⟩
  | @finish pos n link timer hphase =>
    have hremovable : (s.timers pos).flags &&& timerModePeriodic = 0 → PrevRight s.links pos := by
      intro honce
      have hdeletes : s.deletes (.finish link timer) = some pos := by
        unfold deletes
        rw [hphase]
        simp only [if_pos honce]
      unfold Removable at hright
      rw [hdeletes] at hright
      exact hright
    obtain ⟨done', hinv⟩ := h.finish hphase hremovable
    exact ⟨past, done', [], late, hinv⟩

theorem inv_of_run (h : TimerRun (fun s a => a.AsksTicks ∧ s.Removable a) s)
    : ∃ past done cur late, s.Inv past done cur late := by
  induction h with
  | init links timers head => exact ⟨0, [], [], [], Inv.init links timers head⟩
  | step h hQ hstep ih =>
    obtain ⟨past, done, cur, late, hinv⟩ := ih
    exact hinv.step hQ.1 hQ.2 hstep

namespace Inv

theorem busy (h : s.Inv past done cur late) (hne : cur ≠ [] ∨ late ≠ [])
    : s.phase ≠ .idle ∧ s.updates = past + 1 := by
  have hposition := h.position
  unfold Position at hposition
  split at hposition
  . cases hne with
    | inl hcur => exact absurd hposition.1 hcur
    | inr hlate => exact absurd hposition.2 hlate
  . next hphase =>
    rw [hphase]
    exact ⟨Phase.noConfusion, hposition.1⟩
  . next hphase =>
    rw [hphase]
    exact ⟨Phase.noConfusion, hposition.1⟩

theorem le_of_ended {v : Nat} (h : s.Inv past done cur late) (hne : cur ≠ [] ∨ late ≠ []) (hended : s.Ended v)
    : v ≤ past := by
  have hbusy := h.busy hne
  cases hended with
  | inl hlt => omega
  | inr hidle => exact absurd hidle.2 hbusy.1

/--
The record of every registration is complete for the updates that have returned.
-/
theorem recorded (h : s.Inv past done cur late) (hr : s.registered[i]? = some r)
    : ∃ u w, s.Recorded i r u w ∧ w ≤ u ∧ ∀ v, s.Ended v → v ≤ w := by
  have hupdates : ∀ v, s.Ended v → v ≤ s.updates := by
    intro v hended
    cases hended with
    | inl hlt => omega
    | inr hidle => omega
  by_cases howned : ∃ p, s.owner p = some i
  . obtain ⟨p, hp⟩ := howned
    have hpending : ∀ {u}, s.Pending p u → s.Recorded i r u u := by
      intro u hpending
      obtain ⟨j, q, hj, hq, -, hrecorded⟩ := hpending
      rw [hp] at hj
      cases hj
      rw [hr] at hq
      cases hq
      exact hrecorded
    have hin : p ∈ done ++ cur ++ late := by
      rw [← h.owned, hp]
      exact Option.some_ne_none i
    rw [List.mem_append, List.mem_append] at hin
    cases hin with
    | inl hin =>
      cases hin with
      | inl hdone => exact ⟨s.updates, s.updates, hpending (h.doneWith p hdone), Nat.le_refl _, hupdates⟩
      | inr hcur =>
        obtain ⟨j, q, hfiring⟩ := h.firing p hcur
        have hj := hfiring.owner
        have hq := hfiring.registered
        rw [hp] at hj
        cases hj
        rw [hr] at hq
        cases hq
        refine ⟨past + 1, past, hfiring.recorded, Nat.le_succ past, ?_⟩
        intro v hended
        exact h.le_of_ended (Or.inl (List.ne_nil_of_mem hcur)) hended
    | inr hlate =>
      refine ⟨past, past, hpending (h.waiting p hlate), Nat.le_refl _, ?_⟩
      intro v hended
      exact h.le_of_ended (Or.inr (List.ne_nil_of_mem hlate)) hended
  . have hover := h.finished i r hr (fun p hp => howned ⟨p, hp⟩)
    exact ⟨s.updates, s.updates, hover.recorded, Nat.le_refl _, hupdates⟩

end Inv

theorem Recorded.firesOnSchedule {u w : Nat} (h : s.Recorded i r u w) (hle : w ≤ u)
    (hended : ∀ v, s.Ended v → v ≤ w)
    : s.FiresOnSchedule i r := by
  constructor
  . intro hcallback v hv
    have hvw := hended v hv
    have hvu : v ≤ u := by omega
    rw [h.called hcallback v]
    simp only [hvu, true_and]
  . intro hcallback v
    rw [h.called hcallback v]
    split
    . next hdue =>
      simp only [if_pos hdue.2, Nat.le_refl]
    . apply Nat.zero_le
  . intro v hv
    have hvw := hended v hv
    rw [h.released v]
    simp only [hvw, true_and]
  . intro v
    rw [h.released v]
    split
    . next hdue =>
      simp only [if_pos hdue.2, Nat.le_refl]
    . apply Nat.zero_le
  . intro hcallback v
    rw [h.released v, h.called hcallback v]
    split
    . next hdue =>
      have hvu : v ≤ u := by omega
      simp only [if_pos (And.intro hvu hdue.2.2), Nat.le_refl]
    . apply Nat.zero_le

theorem timers_onSchedule (h : TimerRun (fun s a => a.AsksTicks ∧ s.Removable a) s) : s.OnSchedule := by
  obtain ⟨past, done, cur, late, hinv⟩ := inv_of_run h
  constructor
  . intro i r hr
    obtain ⟨u, w, hrecorded, hle, hended⟩ := hinv.recorded hr
    exact hrecorded.firesOnSchedule hle hended
  . exact hinv.calledOwn
  . exact hinv.releasedOwn
  . have hvisits := hinv.visits
    omega

/--
The actions one after the other, each of which has to satisfy `Q`.
-/
def exec (Q : Timers → TimerAction → Prop) [∀ s a, Decidable (Q s a)]
    (s : Timers) : List TimerAction → Option Timers
  | [] => some s
  | a :: as => if Q s a then (s.step a).bind (fun s => s.exec Q as) else none

theorem run_exec {Q : Timers → TimerAction → Prop} [∀ s a, Decidable (Q s a)] {as : List TimerAction}
    (h : TimerRun Q s) (hexec : s.exec Q as = some s')
    : TimerRun Q s' := by
  induction as generalizing s with
  | nil =>
    cases hexec
    exact h
  | cons a as ih =>
    unfold exec at hexec
    split at hexec
    . next hQ =>
      cases hstep : s.step a with
      | none =>
        rw [hstep] at hexec
        cases hexec
      | some t =>
        rw [hstep] at hexec
        exact ih (h.step hQ hstep) hexec
    . cases hexec

/--
The timers after `timer_init_context`, with the list at `0x10`.
-/
def noTimers : Timers :=
  timerInitContext (fun _ => ⟨0, 0⟩) (fun _ => ⟨0, 0, 0, 0, 0⟩) 0x10

/--
A one-shot timer at `0x100` for one tick and a periodic one at `0x200` for two ticks, and two updates.
-/
def oneShotAndPeriodic : List TimerAction :=
  [.timerRun 0x100 1 0x1000 0 0, .timerRun 0x200 2 0x1000 0 1,
    .timerUpdate, .visit, .visit, .finish ⟨0x100, 0x100⟩ ⟨1, 0, 0, 0x1000, 0⟩, .visit,
    .timerUpdate, .visit, .finish ⟨0, 0⟩ ⟨0, 0, 0, 0, 0⟩, .visit]

theorem timers_onSchedule_oneShotAndPeriodic
    : ∃ s, TimerRun (fun s a => a.AsksTicks ∧ s.Removable a) s
        ∧
      s.OnSchedule
        ∧
      s.called = [⟨some 1, 0x1000, 0, 2⟩, ⟨some 0, 0x1000, 0, 1⟩] ∧ s.released = [⟨some 0, 1⟩] := by
  have hrun : TimerRun (fun s a => a.AsksTicks ∧ s.Removable a) noTimers := TimerRun.init _ _ _
  have hrecord
      : (noTimers.exec (fun s a => a.AsksTicks ∧ s.Removable a) oneShotAndPeriodic).map
          (fun s => (s.called, s.released))
          =
        some ([⟨some 1, 0x1000, 0, 2⟩, ⟨some 0, 0x1000, 0, 1⟩], [⟨some 0, 1⟩]) := by
    decide
  obtain ⟨s, hexec, hpair⟩ := Option.map_eq_some_iff.mp hrecord
  have hend := run_exec hrun hexec
  rw [Prod.mk.injEq] at hpair
  exact ⟨s, hend, timers_onSchedule hend, hpair.1, hpair.2⟩

/--
Two one-shot timers, at `0x100` and `0x200`, that are due on the same update. The deletion of the first
keeps the second in the list, and the next update visits it although there is no timer left.
-/
def twoNeighbours : List TimerAction :=
  [.timerRun 0x100 1 0x1000 0 0, .timerRun 0x200 1 0x1000 0 0,
    .timerUpdate, .visit, .finish ⟨0x200, 0x200⟩ ⟨1, 0, 0, 0x1000, 0⟩,
    .visit, .finish ⟨0x100, 0x100⟩ ⟨1, 0, 0, 0x1000, 0⟩, .visit, .timerUpdate, .visit]

theorem timers_not_onSchedule : ∃ s, TimerRun (fun _ a => a.AsksTicks) s ∧ ¬s.OnSchedule := by
  have hrun : TimerRun (fun _ a => a.AsksTicks) noTimers := TimerRun.init _ _ _
  have hvisits
      : (noTimers.exec (fun _ a => a.AsksTicks) twoNeighbours).map (fun s => (s.visits, s.active))
          =
        some (1, 0) := by
    decide
  obtain ⟨s, hexec, hcounts⟩ := Option.map_eq_some_iff.mp hvisits
  refine ⟨s, run_exec hrun hexec, ?_⟩
  intro hschedule
  have hle := hschedule.visits_le
  rw [Prod.mk.injEq] at hcounts
  omega

end Timers

end AwaOS
