import AwaOS.Llist.Lemmas
import AwaOS.Timer.Schedule

/-!
The invariant of the timers: the list of active timers is cut into those that the present `timer_update`
has dealt with, the one whose callback it has called, and those it has yet to come to.
-/

namespace AwaOS

namespace Timers

/--
The timer at `p` has been dealt with by the first `u` updates.
-/
def Pending (s : Timers) (p : Word) (u : Nat) : Prop :=
  ∃ i r, s.owner p = some i ∧ s.registered[i]? = some r ∧ (s.timers p).Waiting r u ∧ s.Recorded i r u u

/--
The timer at `p` has been dealt with by the first `u` updates, and the next one has called its callback.
-/
structure Firing (s : Timers) (p : Word) (u i : Nat) (r : Registration) : Prop where
  owner : s.owner p = some i
  registered : s.registered[i]? = some r
  of : (s.timers p).Of r
  pos : 0 < r.ticks.toNat
  due : r.Due (u + 1)
  recorded : s.Recorded i r (u + 1) u

/--
The timer of the `i`-th registration has fired for the last time.
-/
structure Over (s : Timers) (i : Nat) (r : Registration) : Prop where
  oneShot : ¬r.Periodic
  le : r.since + r.ticks.toNat ≤ s.updates
  recorded : s.Recorded i r s.updates s.updates

/--
Where `timer_update` is. `past` updates have dealt with the timers it has yet to come to.
-/
def Position (s : Timers) (past : Nat) (cur late : List Word) : Prop :=
  match s.phase with
  | .idle => cur = [] ∧ late = []
  | .loop pos n =>
    s.updates = past + 1 ∧ cur = [] ∧ pos = late.headD s.activeTimers ∧ n = (s.links pos).next
  | .expired pos n =>
    s.updates = past + 1 ∧ cur = [pos] ∧ n = late.headD s.activeTimers

structure Inv (s : Timers) (past : Nat) (done cur late : List Word) : Prop where
  position : s.Position past cur late
  list : Traversable s.links s.activeTimers (done ++ cur ++ late)
  owned : ∀ p, s.owner p ≠ none ↔ p ∈ done ++ cur ++ late
  apart : ∀ p q, s.owner p = s.owner q → s.owner p ≠ none → p = q
  doneWith : ∀ p ∈ done, s.Pending p s.updates
  firing : ∀ p ∈ cur, ∃ i r, s.Firing p past i r
  waiting : ∀ p ∈ late, s.Pending p past
  finished : ∀ i r, s.registered[i]? = some r → (∀ p, s.owner p ≠ some i) → s.Over i r
  calledOwn : ∀ c ∈ s.called, ∃ (i : Nat) (r : Registration), s.registered[i]? = some r ∧ c = r.call i c.update
  releasedOwn : ∀ f ∈ s.released, ∃ (i : Nat) (r : Registration), s.registered[i]? = some r ∧ f.owner = some i
  balance : s.registered.length = s.released.length + (done ++ cur ++ late).length
  visits : s.visits + late.length ≤ s.active

variable {s s' : Timers} {p : Word} {i u past : Nat} {r : Registration} {done cur late : List Word}

theorem Pending.congr (h : s.Pending p u) (howner : s'.owner p = s.owner p) (htimer : s'.timers p = s.timers p)
    (hsame : ∀ i, s.owner p = some i → SameRecord s s' i)
    : s'.Pending p u := by
  unfold Pending at h ⊢
  obtain ⟨i, r, hi, hr, hwaiting, hrecorded⟩ := h
  have hrecord := hsame i hi
  rw [howner, htimer]
  exact ⟨i, r, hi, hrecord.registered r hr, hwaiting, hrecorded.congr hrecord⟩

theorem Firing.congr (h : s.Firing p u i r) (howner : s'.owner p = s.owner p)
    (htimer : s'.timers p = s.timers p) (hsame : SameRecord s s' i)
    : s'.Firing p u i r := by
  constructor
  . rw [howner]
    exact h.owner
  . exact hsame.registered r h.registered
  . rw [htimer]
    exact h.of
  . exact h.pos
  . exact h.due
  . exact h.recorded.congr hsame

theorem Over.congr (h : s.Over i r) (hupdates : s'.updates = s.updates) (hsame : SameRecord s s' i)
    : s'.Over i r := by
  constructor
  . exact h.oneShot
  . rw [hupdates]
    exact h.le
  . rw [hupdates]
    exact h.recorded.congr hsame

/--
A further update has nothing to do for a timer that is over.
-/
theorem Over.next (h : s.Over i r) (hupdates : s'.updates = s.updates + 1) (hsame : SameRecord s s' i)
    : s'.Over i r := by
  have hle := h.le
  constructor
  . exact h.oneShot
  . omega
  . rw [hupdates]
    apply (h.recorded.next ?_).congr hsame
    intro hdue
    have heq := hdue.eq_of_oneShot h.oneShot
    omega

theorem Pending.registered (h : s.Pending p u) : ∃ i r, s.owner p = some i ∧ s.registered[i]? = some r := by
  obtain ⟨i, r, hi, hr, -, -⟩ := h
  exact ⟨i, r, hi, hr⟩

namespace Inv

theorem registered (h : s.Inv past done cur late) (hi : s.owner p = some i) : i < s.registered.length := by
  have hin : p ∈ done ++ cur ++ late := by
    rw [← h.owned, hi]
    exact Option.some_ne_none i
  have hexists : ∃ i r, s.owner p = some i ∧ s.registered[i]? = some r := by
    rw [List.mem_append, List.mem_append] at hin
    cases hin with
    | inl hin =>
      cases hin with
      | inl hdone => exact (h.doneWith p hdone).registered
      | inr hcur =>
        obtain ⟨j, r, hfiring⟩ := h.firing p hcur
        exact ⟨j, r, hfiring.owner, hfiring.registered⟩
    | inr hlate => exact (h.waiting p hlate).registered
  obtain ⟨j, r, hj, hr⟩ := hexists
  rw [hi] at hj
  cases hj
  exact (List.getElem?_eq_some_iff.mp hr).1

/--
Two timers are never recorded under one registration.
-/
theorem owner_ne {q : Word} (h : s.Inv past done cur late) (hne : q ≠ p) (hi : s.owner p = some i)
    : s.owner q ≠ some i := by
  intro hq
  apply hne
  apply h.apart
  . rw [hq, hi]
  . rw [hq]
    exact Option.some_ne_none i

theorem init (links : Word → LlistHeader Word) (timers : Word → LxTimer) (head : Word)
    : (timerInitContext links timers head).Inv 0 [] [] [] := by
  constructor
  . exact ⟨rfl, rfl⟩
  . exact Traversable.initHead links head
  . intro p
    simp [timerInitContext]
  . intro p q _ hp
    exact absurd rfl hp
  . intro p hp
    cases hp
  . intro p hp
    cases hp
  . intro p hp
    cases hp
  . intro i r hr
    simp [timerInitContext] at hr
  . intro c hc
    cases hc
  . intro f hf
    cases hf
  . rfl
  . exact Nat.le_refl 0

end Inv

/--
`timer_run` when `lxmalloc` returns a block.
-/
theorem timerRun_eq {timer ticks callback payload : Word} {flags : BitVec 8} (hnull : timer ≠ 0)
    : s.timerRun timer ticks callback payload flags
        =
      (1, { s with
        owner := Function.update s.owner timer (some s.registered.length)
        registered := s.registered ++ [⟨ticks, callback, payload, flags, s.updates⟩]
        timers := Function.update s.timers timer ⟨ticks, ticks, payload, callback, flags⟩
        links := llistAppend s.links s.activeTimers timer }) := by
  unfold timerRun
  rw [if_neg hnull]

theorem not_loop_of_mayRun (h : s.mayRun) (pos n : Word) : s.phase ≠ .loop pos n := by
  intro hphase
  unfold mayRun at h
  rw [hphase] at h
  cases h

namespace Inv

theorem recorded_fresh (h : s.Inv past done cur late) (hticks : r.ticks ≠ 0)
    : s.Recorded s.registered.length r r.since r.since := by
  apply Recorded.fresh
  . intro c hc howner
    obtain ⟨i, q, hq, heq⟩ := h.calledOwn c hc
    rw [heq] at howner
    cases howner
    exact Nat.lt_irrefl _ (List.getElem?_eq_some_iff.mp hq).1
  . intro f hf howner
    obtain ⟨i, q, hq, heq⟩ := h.releasedOwn f hf
    rw [heq] at howner
    cases howner
    exact Nat.lt_irrefl _ (List.getElem?_eq_some_iff.mp hq).1
  . exact BitVec.toNat_pos_of_ne_zero hticks

theorem timerRun {timer ticks callback payload : Word} {flags : BitVec 8} (h : s.Inv past done cur late)
    (hmay : s.mayRun) (hfree : s.Free timer) (hnull : timer ≠ 0) (hticks : ticks ≠ 0)
    : (s.timerRun timer ticks callback payload flags).2.Inv past (timer :: done) cur late := by
  have hunused := hfree.resolve_left hnull
  have hnotin : timer ∉ done ++ cur ++ late := by
    intro hin
    exact (h.owned timer).mpr hin hunused.2
  have hne : ∀ {p}, p ∈ done ++ cur ++ late → p ≠ timer := by
    intro p hp heq
    rw [heq] at hp
    exact hnotin hp
  rw [timerRun_eq hnull]
  generalize hr : (⟨ticks, callback, payload, flags, s.updates⟩ : Registration) = r
  have hticks' : r.ticks ≠ 0 := by
    rw [← hr]
    exact hticks
  generalize hs' : ({ s with
    owner := Function.update s.owner timer (some s.registered.length)
    registered := s.registered ++ [r]
    timers := Function.update s.timers timer ⟨ticks, ticks, payload, callback, flags⟩
    links := llistAppend s.links s.activeTimers timer } : Timers) = s'
  have howner : s'.owner = Function.update s.owner timer (some s.registered.length) := by rw [← hs']
  have hregistered : s'.registered = s.registered ++ [r] := by rw [← hs']
  have htimers : s'.timers = Function.update s.timers timer ⟨ticks, ticks, payload, callback,
    flags⟩ := by rw [← hs']
  have hsame : ∀ i, SameRecord s s' i := by
    intro i
    subst hs'
    constructor
    . intro q hq
      exact List.getElem?_append_left (List.getElem?_eq_some_iff.mp hq).1 ▸ hq
    . intro c _
      rfl
    . intro f _
      rfl
  have hkept : ∀ {p}, p ∈ done ++ cur ++ late → s'.owner p = s.owner p ∧ s'.timers p = s.timers p := by
    intro p hp
    rw [howner, htimers, Function.update_of_ne (hne hp), Function.update_of_ne (hne hp)]
    exact ⟨rfl, rfl⟩
  have hupdates : s'.updates = s.updates := by rw [← hs']
  have hlookup : s'.registered[s.registered.length]? = some r := by
    rw [hregistered, List.getElem?_concat_length]
  constructor
  . have hposition := h.position
    have hphase : s'.phase = s.phase := by rw [← hs']
    unfold Position at hposition ⊢
    rw [hphase]
    cases hcase : s.phase with
    | idle =>
      rw [hcase] at hposition
      exact hposition
    | loop pos n => exact absurd hcase (not_loop_of_mayRun hmay pos n)
    | expired pos n =>
      rw [hcase] at hposition
      subst hs'
      exact hposition
  . subst hs'
    apply h.list.append
    rw [List.mem_cons, not_or]
    exact ⟨hunused.1, hnotin⟩
  . intro p
    rw [howner]
    by_cases hp : p = timer
    . subst hp
      simp
    . rw [Function.update_of_ne hp, h.owned]
      simp [hp]
  . intro p q heq hp
    rw [howner] at heq hp
    have hnew : ∀ {q}, s.owner q ≠ some s.registered.length := by
      intro q hq
      exact Nat.lt_irrefl _ (h.registered hq)
    by_cases hpt : p = timer
    . by_cases hqt : q = timer
      . rw [hpt, hqt]
      . rw [hpt, Function.update_self, Function.update_of_ne hqt] at heq
        exact absurd heq.symm hnew
    . rw [Function.update_of_ne hpt] at heq hp
      by_cases hqt : q = timer
      . rw [hqt, Function.update_self] at heq
        exact absurd heq hnew
      . rw [Function.update_of_ne hqt] at heq
        exact h.apart p q heq hp
  . intro p hp
    rw [hupdates]
    cases List.mem_cons.mp hp with
    | inl heq =>
      subst heq
      refine ⟨s.registered.length, r, ?_, hlookup, ?_, ?_⟩
      . rw [howner, Function.update_self]
      . rw [htimers, Function.update_self]
        subst hr
        exact LxTimer.Waiting.init ⟨rfl, rfl, rfl, rfl⟩ hticks rfl
      . have hrecorded := h.recorded_fresh hticks'
        have hsince : r.since = s.updates := by rw [← hr]
        rw [hsince] at hrecorded
        exact hrecorded.congr (hsame _)
    | inr hin =>
      have hp : p ∈ done ++ cur ++ late := by simp [hin]
      exact (h.doneWith p hin).congr (hkept hp).1 (hkept hp).2 (fun i _ => hsame i)
  . intro p hp
    have hin : p ∈ done ++ cur ++ late := by simp [hp]
    obtain ⟨i, q, hfiring⟩ := h.firing p hp
    exact ⟨i, q, hfiring.congr (hkept hin).1 (hkept hin).2 (hsame i)⟩
  . intro p hp
    have hin : p ∈ done ++ cur ++ late := by simp [hp]
    exact (h.waiting p hp).congr (hkept hin).1 (hkept hin).2 (fun i _ => hsame i)
  . intro i q hq hgone
    have hi : i ≠ s.registered.length := by
      intro heq
      apply hgone timer
      rw [howner, Function.update_self, heq]
    have hold : s.registered[i]? = some q := by
      rw [hregistered] at hq
      have hlt := (List.getElem?_eq_some_iff.mp hq).1
      rw [List.length_append, List.length_singleton] at hlt
      rw [← hq, List.getElem?_append_left (by omega)]
    apply (h.finished i q hold ?_).congr hupdates (hsame i)
    intro p hp
    have hpt : p ≠ timer := by
      intro heq
      rw [heq, hunused.2] at hp
      cases hp
    apply hgone p
    rw [howner, Function.update_of_ne hpt, hp]
  . intro c hc
    have hc' : c ∈ s.called := by
      rw [← hs'] at hc
      exact hc
    obtain ⟨i, q, hq, heq⟩ := h.calledOwn c hc'
    exact ⟨i, q, (hsame i).registered q hq, heq⟩
  . intro f hf
    have hf' : f ∈ s.released := by
      rw [← hs'] at hf
      exact hf
    obtain ⟨i, q, hq, heq⟩ := h.releasedOwn f hf'
    exact ⟨i, q, (hsame i).registered q hq, heq⟩
  . have hbalance := h.balance
    have hreleased : s'.released = s.released := by rw [← hs']
    rw [hregistered, hreleased, List.length_append, List.length_singleton, List.cons_append, List.cons_append,
      List.length_cons, hbalance]
    omega
  . subst hs'
    exact h.visits

end Inv

end Timers

end AwaOS
