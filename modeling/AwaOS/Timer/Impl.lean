import AwaOS.Llist.Impl
import AwaOS.Page.Basic

/-!
The timers of `kernel/timer.c`. The member `link` of a `struct lx_timer` comes first, so that
`list_entry` leaves an address as it is. An invocation of `timer_update` is cut into steps at the points
where a callback starts and returns, since the callback may call `timer_run`.
-/

namespace AwaOS

def timerModePeriodic : BitVec 8 := 0x1

/--
The members of `struct lx_timer` other than `link`.
-/
structure LxTimer where
  deadline : Word
  counter : Word
  payload : Word
  callback : Word
  flags : BitVec 8
  deriving DecidableEq

/--
What the processor is doing.
-/
inductive Phase where
  /-- It is not in `timer_update`. -/
  | idle
  /-- It is at the loop condition of `timer_update`. -/
  | loop (pos n : Word)
  /-- The counter of `pos` has reached 0. The callback of `pos`, if there is one, has been called. -/
  | expired (pos n : Word)
  deriving DecidableEq

/--
A call of `timer_run` that returned 1. At that point `timer_update` has been entered `since` times.
-/
structure Registration where
  ticks : Word
  callback : Word
  payload : Word
  flags : BitVec 8
  since : Nat
  deriving DecidableEq

/--
A call of a callback from the `update`-th `timer_update`, on behalf of the registration that owns the
timer. `none` is a block that has been freed.
-/
structure Call where
  owner : Option Nat
  callback : Word
  payload : Word
  update : Nat
  deriving DecidableEq

/--
A call of `lxfree` from the `update`-th `timer_update`.
-/
structure Release where
  owner : Option Nat
  update : Nat
  deriving DecidableEq

/--
The timers, and what has happened to them so far. `owner` says which registration `lxmalloc` has handed
a block out for.
-/
structure Timers where
  activeTimers : Word
  links : Word → LlistHeader Word
  timers : Word → LxTimer
  phase : Phase
  owner : Word → Option Nat
  registered : List Registration
  updates : Nat
  called : List Call
  released : List Release
  /-- How many timers were registered and not released when the present or last `timer_update` began. -/
  active : Nat
  /-- How many times it has entered the body of its loop. -/
  visits : Nat

/--
The timers after `timer_init_context`, whose `lxmalloc` returns `head` for `active_timers`.
-/
def timerInitContext (links : Word → LlistHeader Word) (timers : Word → LxTimer) (head : Word) : Timers :=
  { activeTimers := head
    links := llistInitHead links head
    timers := timers
    phase := .idle
    owner := fun _ => none
    registered := []
    updates := 0
    called := []
    released := []
    active := 0
    visits := 0 }

namespace Timers

/--
`timer_run`, when `lxmalloc` returns `timer`.
-/
def timerRun (s : Timers) (timer ticks callback payload : Word) (flags : BitVec 8) : Word × Timers :=
  if timer = 0 then
    (0, s)
  else
    let r : Registration := { ticks, callback, payload, flags, since := s.updates }
    let s := { s with
      owner := Function.update s.owner timer (some s.registered.length)
      registered := s.registered ++ [r] }
    let t : LxTimer := { callback, counter := ticks, deadline := ticks, payload, flags }
    let s := { s with timers := Function.update s.timers timer t }
    let s := { s with links := llistAppend s.links s.activeTimers timer }
    (1, s)

/--
`lxfree`, which leaves `link` and `timer` in the block.
-/
def lxfree (s : Timers) (ptr : Word) (link : LlistHeader Word) (timer : LxTimer) : Timers :=
  { s with
    links := Function.update s.links ptr link
    timers := Function.update s.timers ptr timer
    owner := Function.update s.owner ptr none
    released := ⟨s.owner ptr, s.updates⟩ :: s.released }

/--
`timer_update` up to the first test of the loop condition.
-/
def timerUpdate (s : Timers) : Timers :=
  let timerListHead := s.activeTimers
  let pos := (s.links timerListHead).next
  let n := (s.links pos).next
  { s with
    phase := .loop pos n
    updates := s.updates + 1
    active := s.registered.length - s.released.length
    visits := 0 }

/--
`pos = n, n = list_entry(n->member.next, typeof(*n), member)`
-/
def advance (s : Timers) (n : Word) : Timers :=
  { s with phase := .loop n (s.links n).next }

/--
The loop condition of `timer_update`, and the body up to the call of the callback.
-/
def visit (s : Timers) (pos n : Word) : Timers :=
  if pos = s.activeTimers then
    { s with phase := .idle }
  else
    let t := s.timers pos
    let t := { t with counter := t.counter - 1 }
    let s := { s with timers := Function.update s.timers pos t, visits := s.visits + 1 }
    if t.counter ≠ 0 then
      s.advance n
    else
      let s := { s with phase := .expired pos n }
      if t.callback ≠ 0 then
        { s with called := ⟨s.owner pos, t.callback, t.payload, s.updates⟩ :: s.called }
      else
        s

/--
The body of the loop after the callback.
-/
def finish (s : Timers) (pos n : Word) (link : LlistHeader Word) (timer : LxTimer) : Timers :=
  let t := s.timers pos
  if t.flags &&& timerModePeriodic ≠ 0 then
    { s with timers := Function.update s.timers pos { t with counter := t.deadline } }.advance n
  else
    ({ s with links := llistDelete s.links pos }.lxfree pos link timer).advance n

/--
`timer_run` can be called from outside `timer_update` and by a callback.
-/
def mayRun (s : Timers) : Bool :=
  match s.phase with
  | .idle => true
  | .loop _ _ => false
  | .expired pos _ => (s.timers pos).callback ≠ 0

/--
`lxmalloc` returns `NULL` or a block that is not in use.
-/
def Free (s : Timers) (timer : Word) : Prop :=
  timer = 0 ∨ timer ≠ s.activeTimers ∧ s.owner timer = none

instance (s : Timers) (timer : Word) : Decidable (s.Free timer) :=
  inferInstanceAs (Decidable (_ ∨ _))

end Timers

inductive TimerAction where
  | timerRun (timer ticks callback payload : Word) (flags : BitVec 8)
  | timerUpdate
  | visit
  | finish (link : LlistHeader Word) (timer : LxTimer)

/--
What can happen next.
-/
def Timers.step (s : Timers) : TimerAction → Option Timers
  | .timerRun timer ticks callback payload flags =>
    if s.mayRun ∧ s.Free timer then
      some (s.timerRun timer ticks callback payload flags).2
    else
      none
  | .timerUpdate =>
    match s.phase with
    | .idle => some s.timerUpdate
    | _ => none
  | .visit =>
    match s.phase with
    | .loop pos n => some (s.visit pos n)
    | _ => none
  | .finish link timer =>
    match s.phase with
    | .expired pos n => some (s.finish pos n link timer)
    | _ => none

/--
The states that can be reached from `timer_init_context` by steps that satisfy `Q`.
-/
inductive TimerRun (Q : Timers → TimerAction → Prop) : Timers → Prop where
  | init (links : Word → LlistHeader Word) (timers : Word → LxTimer) (head : Word)
      : TimerRun Q (timerInitContext links timers head)
  | step {s s' : Timers} {a : TimerAction} (h : TimerRun Q s) (hQ : Q s a) (hstep : s.step a = some s')
      : TimerRun Q s'

end AwaOS
