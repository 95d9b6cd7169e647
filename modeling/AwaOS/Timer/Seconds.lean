import AwaOS.Timer.Calibration
import AwaOS.Timer.Run

/-!
The delay of `timer_run_second`. The number of ticks is computed modulo `2^32`, and a counter that starts at 0 takes
`2^32` updates to come down to 0 again.
-/

namespace AwaOS

namespace Timers

/--
`timer_run_second`, when `lxmalloc` returns `timer`.
-/
def timerRunSecond (ctx : LxTimerContext) (s : Timers) (timer second callback payload : Word) (flags : BitVec 8)
    : Word × Timers :=
  s.timerRun timer (second * ctx.runningFrequency) callback payload flags

variable {s s' : Timers} {a : TimerAction} {i since : Nat}

section Records

/--
What one step can add to the record: a call of a callback that is not `NULL`.
-/
inductive Adds (s s' : Timers) : Prop where
  | nothing (h : s'.called = s.called)
  | call (p callback payload : Word) (hcallback : callback ≠ 0)
      (h : s'.called = ⟨s.owner p, callback, payload, s.updates⟩ :: s.called)

structure Later (s s' : Timers) : Prop where
  updates : s.updates ≤ s'.updates
  adds : Adds s s'
  registered : s.registered.length ≤ s'.registered.length
  owner : ∀ p j, s'.owner p = some j → s.owner p = some j ∨ j < s'.registered.length

theorem visit_later (s : Timers) (pos n : Word) : Later s (s.visit pos n) := by
  by_cases hend : pos = s.activeTimers
  . unfold visit
    rw [if_pos hend]
    exact ⟨Nat.le_refl _, .nothing rfl, Nat.le_refl _, fun _ _ h => Or.inl h⟩
  . by_cases hcounter : (s.timers pos).counter - 1 = 0
    . rw [visit_expired hend hcounter]
      refine ⟨Nat.le_refl _, ?_, Nat.le_refl _, fun _ _ h => Or.inl h⟩
      by_cases hcallback : (s.timers pos).callback ≠ 0
      . exact .call pos _ _ hcallback (if_pos hcallback)
      . exact .nothing (if_neg hcallback)
    . rw [visit_counting hend hcounter]
      exact ⟨Nat.le_refl _, .nothing rfl, Nat.le_refl _, fun _ _ h => Or.inl h⟩

theorem finish_later (s : Timers) (pos n : Word) (link : LlistHeader Word) (timer : LxTimer)
    : Later s (s.finish pos n link timer) := by
  by_cases honce : (s.timers pos).flags &&& timerModePeriodic = 0
  . rw [finish_release honce]
    refine ⟨Nat.le_refl _, .nothing rfl, Nat.le_refl _, ?_⟩
    intro p j hp
    by_cases heq : p = pos
    . rw [heq] at hp
      dsimp only at hp
      rw [Function.update_self] at hp
      cases hp
    . dsimp only at hp
      rw [Function.update_of_ne heq] at hp
      exact Or.inl hp
  . rw [finish_reload honce]
    exact ⟨Nat.le_refl _, .nothing rfl, Nat.le_refl _, fun _ _ h => Or.inl h⟩

theorem timerRun_later (s : Timers) (timer ticks callback payload : Word) (flags : BitVec 8)
    : Later s (s.timerRun timer ticks callback payload flags).2 := by
  by_cases hnull : timer = 0
  . unfold timerRun
    rw [if_pos hnull]
    exact ⟨Nat.le_refl _, .nothing rfl, Nat.le_refl _, fun _ _ h => Or.inl h⟩
  . rw [timerRun_eq hnull]
    have hlen : s.registered.length
        < (s.registered ++ [(⟨ticks, callback, payload, flags, s.updates⟩ : Registration)]).length := by
      rw [List.length_append]
      exact Nat.lt_succ_self _
    refine ⟨Nat.le_refl _, .nothing rfl, Nat.le_of_lt hlen, ?_⟩
    intro p j hp
    by_cases heq : p = timer
    . rw [heq] at hp
      dsimp only at hp
      rw [Function.update_self] at hp
      cases hp
      exact Or.inr hlen
    . dsimp only at hp
      rw [Function.update_of_ne heq] at hp
      exact Or.inl hp

theorem step_later (hstep : s.step a = some s') : Later s s' := by
  cases step_iff.mp hstep with
  | @timerRun timer ticks callback payload flags => exact timerRun_later s timer ticks callback payload flags
  | timerUpdate => exact ⟨Nat.le_succ _, .nothing rfl, Nat.le_refl _, fun _ _ h => Or.inl h⟩
  | @visit pos n => exact visit_later s pos n
  | @finish pos n link timer => exact finish_later s pos n link timer

/--
All that has been called belongs to a registration, and is a function.
-/
structure OwnCalls (s : Timers) : Prop where
  owner : ∀ p j, s.owner p = some j → j < s.registered.length
  called : ∀ c ∈ s.called, c.callback ≠ 0 ∧ ∀ j, c.owner = some j → j < s.registered.length

theorem OwnCalls.later (h : s.OwnCalls) (hlater : Later s s') : s'.OwnCalls := by
  have hle := hlater.registered
  have hold : ∀ c ∈ s.called, c.callback ≠ 0 ∧ ∀ j, c.owner = some j → j < s'.registered.length := by
    intro c hc
    exact ⟨(h.called c hc).left, fun j hj => Nat.lt_of_lt_of_le ((h.called c hc).right j hj) hle⟩
  constructor
  . intro p j hp
    cases hlater.owner p j hp with
    | inl hbefore => exact Nat.lt_of_lt_of_le (h.owner p j hbefore) hle
    | inr hnew => exact hnew
  . intro c hc
    cases hlater.adds with
    | nothing hsame =>
      rw [hsame] at hc
      exact hold c hc
    | call p callback payload hcallback hcons =>
      rw [hcons] at hc
      cases List.mem_cons.mp hc with
      | inl hnew =>
        rw [hnew]
        exact ⟨hcallback, fun j hj => Nat.lt_of_lt_of_le (h.owner p j hj) hle⟩
      | inr hbefore => exact hold c hbefore

theorem ownCalls_of_run {Q : Timers → TimerAction → Prop} (h : TimerRun Q s) : s.OwnCalls := by
  induction h with
  | init links timers head =>
    constructor
    . intro p j hp
      cases hp
    . intro c hc
      cases hc
  | step _ _ hstep ih => exact ih.later (step_later hstep)

end Records

section Run

/--
Until the first call for the `i`-th registration no other timer is registered.
-/
def OnlyTimer (i : Nat) (s : Timers) (a : TimerAction) : Prop :=
  match a with
  | .timerRun timer _ _ _ _ => timer ≠ 0 → ∃ c ∈ s.called, c.owner = some i
  | _ => True

/--
What follows in any order.
-/
def AloneRun (i : Nat) : Timers → Timers → Prop :=
  Relation.ReflTransGen (fun s s' => ∃ a, OnlyTimer i s a ∧ s.step a = some s')

/--
The callback of the `i`-th registration is not called before the `v`-th update, and it is called by that one.
-/
structure FirstCalledOn (s : Timers) (i : Nat) (callback payload : Word) (v : Nat) : Prop where
  notBefore : ∀ c ∈ s.called, c.owner = some i → v ≤ c.update
  onTime : s.Ended v →
    ∃ c ∈ s.called, c.owner = some i ∧ c.callback = callback ∧ c.payload = payload ∧ c.update = v

/--
It has been called.
-/
structure Fired (s : Timers) (i : Nat) (callback payload : Word) (v : Nat) : Prop where
  notBefore : ∀ c ∈ s.called, c.owner = some i → v ≤ c.update
  onTime : ∃ c ∈ s.called, c.owner = some i ∧ c.callback = callback ∧ c.payload = payload ∧ c.update = v
  le : v ≤ s.updates

theorem AloneRun.timerUpdate (hphase : s.phase = .idle) : AloneRun i s s.timerUpdate :=
  .single ⟨.timerUpdate, trivial, step_iff.mpr (.timerUpdate hphase)⟩

theorem AloneRun.visit {pos n : Word} (h : AloneRun i s s') (hphase : s'.phase = .loop pos n)
    : AloneRun i s (s'.visit pos n) :=
  h.tail ⟨.visit, trivial, step_iff.mpr (.visit hphase)⟩

theorem AloneRun.finish {pos n : Word} (h : AloneRun i s s') (hphase : s'.phase = .expired pos n)
    (link : LlistHeader Word) (timer : LxTimer)
    : AloneRun i s (s'.finish pos n link timer) :=
  h.tail ⟨.finish link timer, trivial, step_iff.mpr (.finish hphase)⟩

theorem visit_end_phase (s : Timers) (n : Word) : (s.visit s.activeTimers n).phase = .idle := by
  unfold Timers.visit
  rw [if_pos rfl]

variable {callback payload : Word} {v : Nat}

theorem Fired.later (h : s.Fired i callback payload v) (hlater : Later s s') : s'.Fired i callback payload v := by
  have hle := Nat.le_trans h.le hlater.updates
  cases hlater.adds with
  | nothing hsame => exact ⟨by rw [hsame]; exact h.notBefore, by rw [hsame]; exact h.onTime, hle⟩
  | call p callback' payload' _ hcons =>
    refine ⟨?_, ?_, hle⟩
    . intro c hc howner
      rw [hcons] at hc
      cases List.mem_cons.mp hc with
      | inl hnew =>
        rw [hnew]
        exact h.le
      | inr hold => exact h.notBefore c hold howner
    . obtain ⟨c, hc, hcall⟩ := h.onTime
      rw [hcons]
      exact ⟨c, List.mem_cons_of_mem _ hc, hcall⟩

theorem Fired.of_run (h : s.Fired i callback payload v) (hrun : AloneRun i s s')
    : s'.Fired i callback payload v := by
  induction hrun with
  | refl => exact h
  | tail _ hlast ih =>
    obtain ⟨a, -, hstep⟩ := hlast
    exact ih.later (step_later hstep)

theorem OwnCalls.of_run (h : s.OwnCalls) (hrun : AloneRun i s s') : s'.OwnCalls := by
  induction hrun with
  | refl => exact h
  | tail _ hlast ih =>
    obtain ⟨a, -, hstep⟩ := hlast
    exact ih.later (step_later hstep)

end Run

section Counting

/--
How many updates it takes the counter to come down to 0.
-/
def delay (ticks : Word) : Nat :=
  (ticks - 1).toNat + 1

theorem delay_eq_iff {n : Nat} (hn : 1 ≤ n) : delay (BitVec.ofNat 32 n) = n ↔ n ≤ 2 ^ 32 := by
  unfold delay
  rw [BitVec.toNat_sub, BitVec.toNat_ofNat]
  rw [show (1 : Word).toNat = 1 from rfl]
  omega

theorem delay_le (ticks : Word) : delay ticks ≤ 2 ^ 32 :=
  (ticks - 1).isLt

/--
The only timer in the list, `k` updates after it was registered with the members `t`.
-/
structure Alone (s : Timers) (timer : Word) (i k : Nat) (t : LxTimer) : Prop where
  ne : timer ≠ s.activeTimers
  head : (s.links s.activeTimers).next = timer
  link : s.links timer = ⟨s.activeTimers, s.activeTimers⟩
  owner : s.owner timer = some i
  timer : s.timers timer = { t with counter := t.counter - BitVec.ofNat 32 k }

variable {timer : Word} {k : Nat} {t : LxTimer}

/--
The counter has not come down to 0 yet, wherever `timer_update` is.
-/
structure Counting (s : Timers) (timer : Word) (i since k : Nat) (t : LxTimer) : Prop where
  alone : s.Alone timer i k t
  lt : k < delay t.counter
  notCalled : ∀ c ∈ s.called, c.owner ≠ some i
  phase : s.phase = .idle ∧ s.updates = since + k
    ∨ s.phase = .loop timer s.activeTimers ∧ s.updates = since + k + 1
    ∨ (∃ n, s.phase = .loop s.activeTimers n) ∧ s.updates = since + k

theorem counter_eq_zero_iff (hlt : k < delay t.counter)
    : t.counter - BitVec.ofNat 32 k - 1 = 0 ↔ k + 1 = delay t.counter := by
  have hcomm : t.counter - BitVec.ofNat 32 k - 1 = t.counter - 1 - BitVec.ofNat 32 k := by
    rw [BitVec.sub_sub, BitVec.sub_sub, BitVec.add_comm]
  have hbound := (t.counter - 1).isLt
  unfold delay at *
  rw [hcomm, BitVec.sub_eq_iff_eq_add, show 0 + BitVec.ofNat 32 k = BitVec.ofNat 32 k from BitVec.zero_add _]
  constructor
  . intro heq
    rw [heq, BitVec.toNat_ofNat, Nat.mod_eq_of_lt (by omega)]
  . intro heq
    apply BitVec.eq_of_toNat_eq
    rw [BitVec.toNat_ofNat, Nat.mod_eq_of_lt (by omega)]
    omega

theorem Counting.updates_of_idle (h : s.Counting timer i since k t) (hphase : s.phase = .idle)
    : s.updates = since + k := by
  rcases h.phase with ⟨-, hupdates⟩ | ⟨hloop, -⟩ | ⟨⟨n, hloop⟩, -⟩
  . exact hupdates
  . rw [hphase] at hloop
    cases hloop
  . rw [hphase] at hloop
    cases hloop

theorem Counting.timerUpdate (h : s.Counting timer i since k t) (hphase : s.phase = .idle)
    : s.timerUpdate.Counting timer i since k t := by
  have halone := h.alone
  have hupdates := h.updates_of_idle hphase
  refine ⟨⟨halone.ne, halone.head, halone.link, halone.owner, halone.timer⟩, h.lt, h.notCalled,
    Or.inr (Or.inl ⟨?_, ?_⟩)⟩
  . unfold Timers.timerUpdate
    dsimp only
    rw [halone.head, halone.link]
  . show s.updates + 1 = since + k + 1
    rw [hupdates]

/--
The counter of the timer goes down.
-/
theorem Counting.visit_timer (h : s.Counting timer i since k t) (hphase : s.phase = .loop timer s.activeTimers)
    : (k + 1 < delay t.counter →
          (s.visit timer s.activeTimers).Counting timer i since (k + 1) t
            ∧ (s.visit timer s.activeTimers).phase = .loop (s.visit timer s.activeTimers).activeTimers timer)
        ∧ (k + 1 = delay t.counter → t.callback ≠ 0 →
            (s.visit timer s.activeTimers).Fired i t.callback t.payload (since + delay t.counter)) := by
  have halone := h.alone
  have hupdates : s.updates = since + k + 1 := by
    rcases h.phase with ⟨hidle, -⟩ | ⟨-, hupdates⟩ | ⟨⟨n, hloop⟩, -⟩
    . rw [hphase] at hidle
      cases hidle
    . exact hupdates
    . rw [hphase] at hloop
      cases hloop
      exact absurd rfl halone.ne
  have hcounter : (s.timers timer).counter = t.counter - BitVec.ofNat 32 k := by rw [halone.timer]
  have hiff := counter_eq_zero_iff h.lt
  constructor
  . intro hlt
    have hne : (s.timers timer).counter - 1 ≠ 0 := by
      rw [hcounter]
      intro hzero
      have heq := hiff.mp hzero
      omega
    rw [visit_counting halone.ne hne]
    refine ⟨⟨⟨halone.ne, halone.head, halone.link, halone.owner, ?_⟩, hlt, h.notCalled,
      Or.inr (Or.inr ⟨⟨_, rfl⟩, ?_⟩)⟩, ?_⟩
    . dsimp only
      rw [Function.update_self, halone.timer, BitVec.ofNat_add, ← BitVec.sub_sub]
      rfl
    . exact hupdates
    . dsimp only
      rw [halone.head]
  . intro heq hcallback
    have hzero : (s.timers timer).counter - 1 = 0 := by
      rw [hcounter]
      exact hiff.mpr heq
    have hcall : (s.timers timer).callback = t.callback := by rw [halone.timer]
    have hpayload : (s.timers timer).payload = t.payload := by rw [halone.timer]
    have hnow : s.updates = since + delay t.counter := by omega
    rw [visit_expired halone.ne hzero, hcall, hpayload, if_pos hcallback, halone.owner, hnow]
    refine ⟨?_, ⟨_, List.mem_cons_self, rfl, rfl, rfl, rfl⟩, ?_⟩
    . intro c hc howner
      cases List.mem_cons.mp hc with
      | inl hnew => exact Nat.le_of_eq (by rw [hnew])
      | inr hold => exact absurd howner (h.notCalled c hold)
    . exact Nat.le_refl _

theorem Counting.visit_head {n : Word} (h : s.Counting timer i since k t)
    (hphase : s.phase = .loop s.activeTimers n)
    : (s.visit s.activeTimers n).Counting timer i since k t := by
  have halone := h.alone
  have hupdates : s.updates = since + k := by
    rcases h.phase with ⟨hidle, -⟩ | ⟨hloop, -⟩ | ⟨-, hupdates⟩
    . rw [hphase] at hidle
      cases hidle
    . rw [hphase] at hloop
      cases hloop
      exact absurd rfl halone.ne
    . exact hupdates
  unfold visit
  rw [if_pos rfl]
  exact ⟨⟨halone.ne, halone.head, halone.link, halone.owner, halone.timer⟩, h.lt, h.notCalled,
    Or.inl ⟨rfl, hupdates⟩⟩

theorem Counting.step (h : s.Counting timer i since k t) (hcallback : t.callback ≠ 0) (honly : OnlyTimer i s a)
    (hstep : s.step a = some s')
    : (∃ k, s'.Counting timer i since k t) ∨ s'.Fired i t.callback t.payload (since + delay t.counter) := by
  cases step_iff.mp hstep with
  | @timerRun block ticks callback payload flags =>
    have hnull : block = 0 := by
      by_contra hne
      obtain ⟨c, hc, howner⟩ := honly hne
      exact h.notCalled c hc howner
    unfold timerRun
    rw [if_pos hnull]
    exact Or.inl ⟨k, h⟩
  | timerUpdate hphase => exact Or.inl ⟨k, h.timerUpdate hphase⟩
  | @visit pos n hphase =>
    rcases h.phase with ⟨hidle, -⟩ | ⟨hloop, -⟩ | ⟨⟨n', hloop⟩, -⟩
    . rw [hphase] at hidle
      cases hidle
    . rw [hphase] at hloop
      cases hloop
      obtain ⟨hcounting, hfired⟩ := h.visit_timer hphase
      have hlt := h.lt
      by_cases hlast : k + 1 = delay t.counter
      . exact Or.inr (hfired hlast hcallback)
      . exact Or.inl ⟨k + 1, (hcounting (by omega)).left⟩
    . rw [hphase] at hloop
      cases hloop
      exact Or.inl ⟨k, h.visit_head hphase⟩
  | @finish pos n link timer' hphase =>
    rcases h.phase with ⟨hother, -⟩ | ⟨hother, -⟩ | ⟨⟨n', hother⟩, -⟩ <;> (rw [hphase] at hother; cases hother)

theorem Counting.of_run (h : s.Counting timer i since k t) (hcallback : t.callback ≠ 0) (hrun : AloneRun i s s')
    : (∃ k, s'.Counting timer i since k t) ∨ s'.Fired i t.callback t.payload (since + delay t.counter) := by
  induction hrun with
  | refl => exact Or.inl ⟨k, h⟩
  | tail _ hlast ih =>
    obtain ⟨a, honly, hstep⟩ := hlast
    cases ih with
    | inl hcounting =>
      obtain ⟨k', hk'⟩ := hcounting
      exact hk'.step hcallback honly hstep
    | inr hfired => exact Or.inr (hfired.later (step_later hstep))

/--
One update after the other until the callback is called.
-/
theorem Counting.exists_fired (h : s.Counting timer i since k t) (hcallback : t.callback ≠ 0)
    (hphase : s.phase = .idle)
    : ∃ s', AloneRun i s s' ∧ s'.Fired i t.callback t.payload (since + delay t.counter) := by
  induction hleft : delay t.counter - k generalizing s k with
  | zero =>
    have hlt := h.lt
    omega
  | succ n ih =>
    have hlt := h.lt
    have hupdated := h.timerUpdate hphase
    have hloop : s.timerUpdate.phase = .loop timer s.timerUpdate.activeTimers := by
      show Phase.loop _ _ = _
      rw [h.alone.head, h.alone.link]
      rfl
    have hvisited := (AloneRun.timerUpdate (i := i) hphase).visit hloop
    obtain ⟨hcounting, hfired⟩ := hupdated.visit_timer hloop
    by_cases hlast : k + 1 = delay t.counter
    . exact ⟨_, hvisited, hfired hlast hcallback⟩
    . obtain ⟨hnext, hend⟩ := hcounting (by omega)
      have hreturned := hnext.visit_head hend
      obtain ⟨s', hrun, hlater⟩ := ih hreturned (visit_end_phase _ _) (by omega)
      exact ⟨s', (hvisited.visit hend).trans hrun, hlater⟩

end Counting

section Silent

/--
The only timer in the list has no callback.
-/
structure SilentTimer (s : Timers) (timer : Word) : Prop where
  ne : timer ≠ s.activeTimers
  head : (s.links s.activeTimers).next = timer
  link : s.links timer = ⟨s.activeTimers, s.activeTimers⟩
  callback : (s.timers timer).callback = 0

def Silent (s : Timers) : Prop :=
  (s.links s.activeTimers).next = s.activeTimers ∨ ∃ timer, s.SilentTimer timer

variable {timer : Word} {u : Nat}

/--
An update that has passed all of the list.
-/
theorem Silent.returns {n : Word} (hrun : AloneRun i s s') (h : s'.Silent)
    (hphase : s'.phase = .loop s'.activeTimers n)
    (hu : s'.updates = u)
    : ∃ t, AloneRun i s t ∧ t.phase = .idle ∧ t.Silent ∧ t.updates = u := by
  refine ⟨s'.visit s'.activeTimers n, hrun.visit hphase, visit_end_phase _ _, ?_⟩
  unfold visit
  rw [if_pos rfl]
  refine ⟨?_, hu⟩
  cases h with
  | inl hempty => exact Or.inl hempty
  | inr hone =>
    obtain ⟨timer, htimer⟩ := hone
    exact Or.inr ⟨timer, htimer.ne, htimer.head, htimer.link, htimer.callback⟩

theorem SilentTimer.expired (hrun : AloneRun i s s') (h : s'.SilentTimer timer)
    (hphase : s'.phase = .expired timer s'.activeTimers) (hu : s'.updates = u)
    : ∃ t, AloneRun i s t ∧ t.phase = .idle ∧ t.Silent ∧ t.updates = u := by
  have hfinished := hrun.finish hphase ⟨0, 0⟩ ⟨0, 0, 0, 0, 0⟩
  by_cases honce : (s'.timers timer).flags &&& timerModePeriodic = 0
  . rw [finish_release honce] at hfinished
    refine Silent.returns hfinished (Or.inl ?_) rfl hu
    dsimp only
    rw [Function.update_of_ne h.ne.symm, llistDelete_next, if_neg h.ne.symm, h.link]
    dsimp only
    rw [if_pos rfl]
  . rw [finish_reload honce] at hfinished
    refine Silent.returns hfinished (Or.inr ⟨timer, h.ne, h.head, h.link, ?_⟩) rfl hu
    dsimp only
    rw [Function.update_self]
    exact h.callback

theorem SilentTimer.visited (hrun : AloneRun i s s') (h : s'.SilentTimer timer)
    (hphase : s'.phase = .loop timer s'.activeTimers) (hu : s'.updates = u)
    : ∃ t, AloneRun i s t ∧ t.phase = .idle ∧ t.Silent ∧ t.updates = u := by
  have hvisited := hrun.visit hphase
  have hkept : (Function.update s'.timers timer
      { s'.timers timer with counter := (s'.timers timer).counter - 1 } timer).callback = 0 := by
    rw [Function.update_self]
    exact h.callback
  by_cases hcounter : (s'.timers timer).counter - 1 = 0
  . rw [visit_expired h.ne hcounter] at hvisited
    exact SilentTimer.expired hvisited ⟨h.ne, h.head, h.link, hkept⟩ rfl hu
  . rw [visit_counting h.ne hcounter] at hvisited
    exact Silent.returns hvisited (Or.inr ⟨timer, h.ne, h.head, h.link, hkept⟩) rfl hu

theorem Silent.update (h : s.Silent) (hphase : s.phase = .idle)
    : ∃ t, AloneRun i s t ∧ t.phase = .idle ∧ t.Silent ∧ t.updates = s.updates + 1 := by
  have hbegun : AloneRun i s s.timerUpdate := AloneRun.timerUpdate hphase
  cases h with
  | inl hempty =>
    have hloop : s.timerUpdate.phase = .loop s.timerUpdate.activeTimers s.activeTimers := by
      unfold Timers.timerUpdate
      dsimp only
      rw [hempty, hempty]
    exact Silent.returns hbegun (Or.inl hempty) hloop rfl
  | inr hone =>
    obtain ⟨timer, htimer⟩ := hone
    have hloop : s.timerUpdate.phase = .loop timer s.timerUpdate.activeTimers := by
      unfold Timers.timerUpdate
      dsimp only
      rw [htimer.head, htimer.link]
    exact SilentTimer.visited hbegun ⟨htimer.ne, htimer.head, htimer.link, htimer.callback⟩ hloop rfl

/--
As many updates as one likes.
-/
theorem Silent.updates (h : s.Silent) (hphase : s.phase = .idle) (n : Nat)
    : ∃ t, AloneRun i s t ∧ t.phase = .idle ∧ t.Silent ∧ t.updates = s.updates + n := by
  induction n with
  | zero => exact ⟨s, .refl, hphase, h, rfl⟩
  | succ n ih =>
    obtain ⟨t, hrun, hidle, hsilent, hupdates⟩ := ih
    obtain ⟨t', hrun', hidle', hsilent', hupdates'⟩ := hsilent.update (i := i) hidle
    exact ⟨t', hrun.trans hrun', hidle', hsilent', by rw [hupdates', hupdates]; rfl⟩

end Silent

section Delay

/--
The first timer of a list without timers.
-/
theorem timerRun_counting {timer : Word} (hown : s.OwnCalls) (hidle : s.phase = .idle) (hnull : timer ≠ 0)
    (hfree : s.Free timer) (hempty : (s.links s.activeTimers).next = s.activeTimers)
    (ticks callback payload : Word) (flags : BitVec 8)
    : (s.timerRun timer ticks callback payload flags).2.Counting timer s.registered.length s.updates 0
          ⟨ticks, ticks, payload, callback, flags⟩
        ∧ (s.timerRun timer ticks callback payload flags).2.phase = .idle := by
  have hne : timer ≠ s.activeTimers := (hfree.resolve_left hnull).left
  rw [timerRun_eq hnull]
  refine ⟨⟨⟨hne, ?_, ?_, Function.update_self _ _ _, ?_⟩, Nat.succ_pos _, ?_, Or.inl ⟨hidle, rfl⟩⟩, hidle⟩
  . dsimp only
    rw [llistAppend_next, if_pos rfl]
  . dsimp only
    ext
    . rw [llistAppend_prev, if_pos rfl]
    . rw [llistAppend_next, if_neg hne, if_pos rfl, hempty]
  . dsimp only
    rw [Function.update_self, BitVec.sub_zero]
  . intro c hc howner
    exact Nat.lt_irrefl _ ((hown.called c hc).right _ howner)

/--
While the counter has not come down to 0, the update on which it will has not ended.
-/
theorem Counting.firstCalledOn {timer callback payload : Word} {k : Nat} {t : LxTimer}
    (h : s.Counting timer i since k t)
    : s.FirstCalledOn i callback payload (since + delay t.counter) := by
  have hlt := h.lt
  refine ⟨fun c hc howner => absurd howner (h.notCalled c hc), ?_⟩
  intro hended
  unfold Ended at hended
  rcases h.phase with ⟨-, hupdates⟩ | ⟨hloop, hupdates⟩ | ⟨-, hupdates⟩
  . omega
  . cases hended with
    | inl hover => omega
    | inr hnow =>
      rw [hloop] at hnow
      cases hnow.right
  . omega

theorem Fired.firstCalledOn {callback payload : Word} {v : Nat} (h : s.Fired i callback payload v)
    : s.FirstCalledOn i callback payload v :=
  ⟨h.notBefore, fun _ => h.onTime⟩

/--
There is a run of as many updates in which nothing is called.
-/
theorem Counting.callback_ne_null {timer payload : Word} {t : LxTimer} {n : Nat} (h : s.Counting timer i since 0 t)
    (hown : s.OwnCalls) (hphase : s.phase = .idle)
    (honTime : ∀ s', AloneRun i s s' → s'.FirstCalledOn i t.callback payload (since + n))
    : t.callback ≠ 0 := by
  intro hnull
  have hsilent : s.Silent := by
    have halone := h.alone
    refine Or.inr ⟨timer, halone.ne, halone.head, halone.link, ?_⟩
    rw [halone.timer]
    exact hnull
  obtain ⟨s', hrun, hidle, -, hupdates⟩ := hsilent.updates (i := i) hphase n
  rw [h.updates_of_idle hphase] at hupdates
  obtain ⟨c, hc, -, hcall, -⟩ := (honTime s' hrun).onTime (Or.inr ⟨hupdates.symm, hidle⟩)
  exact ((hown.of_run hrun).called c hc).left (hcall.trans hnull)

/--
There is a run in which the callback is called when the counter has come down to 0.
-/
theorem Counting.le_delay {timer callback payload : Word} {t : LxTimer} {n : Nat}
    (h : s.Counting timer i since 0 t) (hcallback : t.callback ≠ 0) (hphase : s.phase = .idle)
    (honTime : ∀ s', AloneRun i s s' → s'.FirstCalledOn i callback payload (since + n))
    : n ≤ delay t.counter := by
  obtain ⟨s', hrun, hfired⟩ := h.exists_fired hcallback hphase
  obtain ⟨c, hc, howner, -, -, hupdate⟩ := hfired.onTime
  have hle := (honTime s' hrun).notBefore c hc howner
  omega

/--
`cb` is first invoked on exactly the `second * running_frequency`-th update after the call, whatever else happens,
exactly if there is a callback and the product is not more than `2^32`.
-/
theorem timerRunSecond_onTime_iff {Q : Timers → TimerAction → Prop} (hrun : TimerRun Q s) (hidle : s.phase = .idle)
    (hempty : (s.links s.activeTimers).next = s.activeTimers) (ctx : LxTimerContext) {timer : Word}
    (hfree : s.Free timer) {second : Word} (hsecond : 1 ≤ second.toNat)
    (hfrequency : 1 ≤ ctx.runningFrequency.toNat)
    (callback payload : Word) (flags : BitVec 8) {s₁ : Timers}
    (hreturned : timerRunSecond ctx s timer second callback payload flags = (1, s₁))
    : (∀ s', AloneRun s.registered.length s₁ s' →
        s'.FirstCalledOn s.registered.length callback payload
          (s.updates + second.toNat * ctx.runningFrequency.toNat))
        ↔
      callback ≠ 0 ∧ second.toNat * ctx.runningFrequency.toNat ≤ 2 ^ 32 := by
  have hnull : timer ≠ 0 := by
    intro hzero
    unfold timerRunSecond timerRun at hreturned
    rw [if_pos hzero] at hreturned
    cases hreturned
  generalize hproduct : second.toNat * ctx.runningFrequency.toNat = product
  have hpos : 1 ≤ product := by
    rw [← hproduct]
    exact Nat.mul_pos hsecond hfrequency
  have hticks : second * ctx.runningFrequency = BitVec.ofNat 32 product := by
    apply BitVec.eq_of_toNat_eq
    rw [BitVec.toNat_mul, BitVec.toNat_ofNat, hproduct]
  unfold timerRunSecond at hreturned
  rw [hticks] at hreturned
  generalize ht : (⟨BitVec.ofNat 32 product, BitVec.ofNat 32 product, payload, callback, flags⟩ : LxTimer) = t
  have hdelay : delay t.counter = product ↔ product ≤ 2 ^ 32 := by
    rw [← ht]
    exact delay_eq_iff hpos
  have hown := ownCalls_of_run hrun
  obtain ⟨hcounting, hidle₁⟩ :=
    timerRun_counting hown hidle hnull hfree hempty (BitVec.ofNat 32 product) callback payload flags
  have hown₁ := hown.later (timerRun_later s timer (BitVec.ofNat 32 product) callback payload flags)
  rw [hreturned, ht] at hcounting
  rw [hreturned] at hidle₁ hown₁
  have hcallback : t.callback = callback := by rw [← ht]
  have hpayload : t.payload = payload := by rw [← ht]
  constructor
  . intro honTime
    rw [← hcallback, ← hpayload] at honTime
    have hnonnull := hcounting.callback_ne_null hown₁ hidle₁ honTime
    refine ⟨by rw [← hcallback]; exact hnonnull, ?_⟩
    have hle := hcounting.le_delay hnonnull hidle₁ honTime
    have hmax := delay_le t.counter
    omega
  . intro hcondition s' hrun'
    rw [← hdelay.mpr hcondition.right, ← hcallback, ← hpayload]
    cases hcounting.of_run (by rw [hcallback]; exact hcondition.left) hrun' with
    | inl hstill =>
      obtain ⟨k, hk⟩ := hstill
      exact hk.firstCalledOn
    | inr hfired => exact hfired.firstCalledOn

/--
A second at the frequency of the system.
-/
theorem timerRunSecond_onTime_oneSecond
    : (∀ s', AloneRun noTimers.registered.length (timerRunSecond ⟨0, 2048, 0⟩ noTimers 0x100 1 0x1000 0 0).2 s' →
        s'.FirstCalledOn noTimers.registered.length 0x1000 0
          (noTimers.updates + (1 : Word).toNat * (2048 : Word).toNat))
        ↔
      (0x1000 : Word) ≠ 0 ∧ (1 : Word).toNat * (2048 : Word).toNat ≤ 2 ^ 32 := by
  have hrun : TimerRun (fun _ _ => True) noTimers := TimerRun.init _ _ _
  have hfree : noTimers.Free 0x100 := Or.inr ⟨by decide, rfl⟩
  exact timerRunSecond_onTime_iff hrun rfl rfl ⟨0, 2048, 0⟩ hfree (by decide) (by decide) 0x1000 0 0 rfl

/--
24 days and a few hours: `2^32 + 2048` ticks are taken for 2048.
-/
theorem timerRunSecond_early
    : ¬∀ (Q : Timers → TimerAction → Prop) (s s₁ : Timers) (ctx : LxTimerContext)
        (timer second callback payload : Word) (flags : BitVec 8),
        TimerRun Q s → s.phase = .idle → (s.links s.activeTimers).next = s.activeTimers → s.Free timer →
        1 ≤ second.toNat → 1 ≤ ctx.runningFrequency.toNat → callback ≠ 0 →
        timerRunSecond ctx s timer second callback payload flags = (1, s₁) →
          ∀ s', AloneRun s.registered.length s₁ s' →
            s'.FirstCalledOn s.registered.length callback payload
              (s.updates + second.toNat * ctx.runningFrequency.toNat) := by
  intro hall
  have hrun : TimerRun (fun _ _ => True) noTimers := TimerRun.init _ _ _
  have hfree : noTimers.Free 0x100 := Or.inr ⟨by decide, rfl⟩
  have honTime := hall _ noTimers _ ⟨0, 2048, 0⟩ 0x100 0x200001 0x1000 0 0 hrun rfl rfl hfree (by decide)
    (by decide) (by decide) rfl
  obtain ⟨hcounting, hidle⟩ :=
    timerRun_counting (ownCalls_of_run hrun) rfl (by decide) hfree rfl (0x200001 * 2048) 0x1000 0 0
  have hle := hcounting.le_delay (by decide) hidle honTime
  exact absurd hle (by decide)

end Delay

end Timers

end AwaOS
