import AwaOS.Timer.Invariant

/-!
Every step of `timer_update` keeps the invariant of the timers, provided that a timer it releases can be
taken out of the list.
-/

namespace AwaOS

namespace Timers

variable {s s' : Timers} {p : Word} {i u past : Nat} {r : Registration} {done cur late : List Word}

/--
What can happen next, and what it comes to.
-/
inductive Happens (s : Timers) : TimerAction → Timers → Prop where
  | timerRun {timer ticks callback payload : Word} {flags : BitVec 8} (hmay : s.mayRun) (hfree : s.Free timer)
      : Happens s (.timerRun timer ticks callback payload flags) (s.timerRun timer ticks callback payload flags).2
  | timerUpdate (hphase : s.phase = .idle) : Happens s .timerUpdate s.timerUpdate
  | visit {pos n : Word} (hphase : s.phase = .loop pos n) : Happens s .visit (s.visit pos n)
  | finish {pos n : Word} {link : LlistHeader Word} {timer : LxTimer} (hphase : s.phase = .expired pos n)
      : Happens s (.finish link timer) (s.finish pos n link timer)

theorem step_iff {a : TimerAction} : s.step a = some s' ↔ s.Happens a s' := by
  constructor
  . intro hstep
    unfold step at hstep
    cases a with
    | timerRun timer ticks callback payload flags =>
      dsimp only at hstep
      split at hstep
      . next hmay =>
        cases hstep
        exact .timerRun hmay.1 hmay.2
      . cases hstep
    | timerUpdate =>
      dsimp only at hstep
      split at hstep
      . next hphase =>
        cases hstep
        exact .timerUpdate hphase
      . cases hstep
    | visit =>
      dsimp only at hstep
      split at hstep
      . next pos n hphase =>
        cases hstep
        exact .visit hphase
      . cases hstep
    | finish link timer =>
      dsimp only at hstep
      split at hstep
      . next pos n hphase =>
        cases hstep
        exact .finish hphase
      . cases hstep
  . intro happens
    unfold step
    cases happens with
    | timerRun hmay hfree => exact if_pos ⟨hmay, hfree⟩
    | timerUpdate hphase =>
      dsimp only
      rw [hphase]
    | visit hphase =>
      dsimp only
      rw [hphase]
    | finish hphase =>
      dsimp only
      rw [hphase]

/--
The two states differ in the timer at `p`, in what has happened to the `i`-th registration, and in the
list.
-/
structure Touches (s s' : Timers) (p : Word) (i : Nat) : Prop where
  activeTimers : s'.activeTimers = s.activeTimers
  registered : s'.registered = s.registered
  updates : s'.updates = s.updates
  owner : ∀ q, q ≠ p → s'.owner q = s.owner q
  owner_self : s'.owner p = s.owner p ∨ s'.owner p = none
  timers : ∀ q, q ≠ p → s'.timers q = s.timers q
  record : ∀ j, j ≠ i → SameRecord s s' j
  called : ∀ c ∈ s'.called, c ∈ s.called ∨ ∃ r, s.registered[i]? = some r ∧ c = r.call i c.update
  released : ∀ f ∈ s'.released, f ∈ s.released ∨ f.owner = some i

namespace Inv

/--
One element `p` is taken out of the timers still to come, or is the one whose callback has returned. Where
it goes is given by `xs` and `ys`.
-/
theorem touch {xs ys rest : List Word} (h : s.Inv past done cur late) (hsplit : cur ++ late = p :: rest)
    (hrest : ∀ q ∈ rest, q ∈ late) (ht : Touches s s' p i) (hi : s.owner p = some i)
    (hposition : s'.Position past ys rest)
    (hlist : Traversable s'.links s.activeTimers (done ++ xs ++ ys ++ rest))
    (howner : s'.owner p ≠ none ↔ p ∈ xs ++ ys) (hxs : ∀ q ∈ xs, q = p ∧ s'.Pending p s.updates)
    (hys : ∀ q ∈ ys, q = p ∧ ∃ r, s'.Firing p past i r)
    (hover : s'.owner p = none → ∀ r, s.registered[i]? = some r → s'.Over i r)
    (hbalance : s.registered.length = s'.released.length + (done ++ xs ++ ys ++ rest).length)
    (hvisits : s'.visits + rest.length ≤ s'.active)
    : s'.Inv past (done ++ xs) ys rest := by
  have hall : done ++ cur ++ late = done ++ p :: rest := by rw [List.append_assoc, hsplit]
  have hnodup := (List.nodup_cons.mp h.list.circular.nodup).2
  rw [hall] at hnodup
  have hapart : ∀ {q}, q ∈ done ∨ q ∈ rest → q ≠ p := by
    intro q hq heq
    subst heq
    have hsplit' := List.nodup_append.mp hnodup
    cases hq with
    | inl hdone => exact hsplit'.2.2 q hdone q (by simp) rfl
    | inr hin => exact (List.nodup_cons.mp hsplit'.2.1).1 hin
  have hkept : ∀ {q u}, q ≠ p → s.Pending q u → s'.Pending q u := by
    intro q u hq hpending
    apply hpending.congr (ht.owner q hq) (ht.timers q hq)
    intro j hj
    apply ht.record
    intro heq
    rw [heq] at hj
    exact h.owner_ne hq hi hj
  constructor
  . exact hposition
  . rw [ht.activeTimers]
    exact hlist
  . intro q
    by_cases hq : q = p
    . subst hq
      rw [howner]
      have hdone : q ∉ done := fun hin => hapart (Or.inl hin) rfl
      have hnotin : q ∉ rest := fun hin => hapart (Or.inr hin) rfl
      simp [hdone, hnotin]
    . have hqx : q ∉ xs := fun hin => hq (hxs q hin).1
      have hqy : q ∉ ys := fun hin => hq (hys q hin).1
      rw [ht.owner q hq, h.owned, hall]
      simp [hq, hqx, hqy]
  . have hsub : ∀ q, s'.owner q ≠ none → s'.owner q = s.owner q := by
      intro q hq
      by_cases hqp : q = p
      . subst hqp
        exact ht.owner_self.resolve_right hq
      . exact ht.owner q hqp
    intro q q' heq hq
    have hq' : s'.owner q' ≠ none := by
      rw [← heq]
      exact hq
    apply h.apart
    . rw [← hsub q hq, ← hsub q' hq', heq]
    . rw [← hsub q hq]
      exact hq
  . intro q hq
    rw [ht.updates]
    cases List.mem_append.mp hq with
    | inl hdone => exact hkept (hapart (Or.inl hdone)) (h.doneWith q hdone)
    | inr hin =>
      have hnew := hxs q hin
      rw [hnew.1]
      exact hnew.2
  . intro q hq
    have hnew := hys q hq
    rw [hnew.1]
    exact ⟨i, hnew.2⟩
  . intro q hq
    exact hkept (hapart (Or.inr hq)) (h.waiting q (hrest q hq))
  . intro j r hr hgone
    rw [ht.registered] at hr
    by_cases hj : j = i
    . subst hj
      apply hover ?_ r hr
      cases ht.owner_self with
      | inl hsame =>
        rw [hi] at hsame
        exact absurd hsame (hgone p)
      | inr hnone => exact hnone
    . apply (h.finished j r hr ?_).congr ht.updates (ht.record j hj)
      intro q hq
      by_cases hqp : q = p
      . rw [hqp, hi] at hq
        cases hq
        exact hj rfl
      . apply hgone q
        rw [ht.owner q hqp, hq]
  . intro c hc
    rw [ht.registered]
    cases ht.called c hc with
    | inl hold => exact h.calledOwn c hold
    | inr hnew => exact ⟨i, hnew⟩
  . intro f hf
    rw [ht.registered]
    cases ht.released f hf with
    | inl hold => exact h.releasedOwn f hold
    | inr hnew =>
      have hlt := h.registered hi
      exact ⟨i, _, List.getElem?_eq_getElem hlt, hnew⟩
  . rw [ht.registered]
    exact hbalance
  . exact hvisits

end Inv

/--
Only the timer at `p` differs, and there is at most one more call, of its own callback.
-/
theorem Touches.of_timer (htimers : ∀ q, q ≠ p → s'.timers q = s.timers q) (howner : s'.owner = s.owner)
    (hactiveTimers : s'.activeTimers = s.activeTimers) (hregistered : s'.registered = s.registered)
    (hupdates : s'.updates = s.updates) (hreleased : s'.released = s.released) (hr : s.registered[i]? = some r)
    (hcalled : s'.called = s.called ∨ s'.called = r.call i s.updates :: s.called)
    : Touches s s' p i := by
  constructor
  . exact hactiveTimers
  . exact hregistered
  . exact hupdates
  . intro q _
    rw [howner]
  . left
    rw [howner]
  . exact htimers
  . intro j hj
    constructor
    . intro q hq
      rw [hregistered, hq]
    . intro c hc
      cases hcalled with
      | inl hsame => rw [hsame]
      | inr hnew =>
        rw [hnew, List.count_cons_of_ne]
        intro heq
        rw [← heq] at hc
        cases hc
        exact hj rfl
    . intro f _
      rw [hreleased]
  . intro c hc
    cases hcalled with
    | inl hsame =>
      rw [hsame] at hc
      exact Or.inl hc
    | inr hnew =>
      rw [hnew] at hc
      cases List.mem_cons.mp hc with
      | inl heq =>
        right
        rw [heq]
        exact ⟨r, hr, rfl⟩
      | inr hold => exact Or.inl hold
  . intro f hf
    rw [hreleased] at hf
    exact Or.inl hf

/--
The timer at `p` is released.
-/
theorem Touches.of_release {links : Word → LlistHeader Word} {timer : LxTimer} {phase : Phase}
    (hi : s.owner p = some i)
    (hs' : s' = { s with
      links := links
      timers := Function.update s.timers p timer
      owner := Function.update s.owner p none
      released := ⟨s.owner p, s.updates⟩ :: s.released
      phase := phase })
    : Touches s s' p i := by
  subst hs'
  constructor
  . rfl
  . rfl
  . rfl
  . intro q hq
    exact Function.update_of_ne hq _ _
  . right
    exact Function.update_self _ _ _
  . intro q hq
    exact Function.update_of_ne hq _ _
  . intro j hj
    constructor
    . intro q hq
      exact hq
    . intro c _
      rfl
    . intro f hf
      rw [List.count_cons_of_ne]
      intro heq
      rw [← heq, hi] at hf
      cases hf
      exact hj rfl
  . intro c hc
    exact Or.inl hc
  . intro f hf
    cases List.mem_cons.mp hf with
    | inl heq =>
      right
      rw [heq, hi]
    | inr hold => exact Or.inl hold

section Steps

variable {pos n : Word}

theorem visit_counting (hne : pos ≠ s.activeTimers) (hcounter : (s.timers pos).counter - 1 ≠ 0)
    : s.visit pos n
        =
      { s with
        timers := Function.update s.timers pos { s.timers pos with counter := (s.timers pos).counter - 1 }
        visits := s.visits + 1
        phase := .loop n (s.links n).next } := by
  unfold visit
  rw [if_neg hne]
  simp only [if_pos hcounter, advance]

theorem visit_expired (hne : pos ≠ s.activeTimers) (hcounter : (s.timers pos).counter - 1 = 0)
    : s.visit pos n
        =
      { s with
        timers := Function.update s.timers pos { s.timers pos with counter := (s.timers pos).counter - 1 }
        visits := s.visits + 1
        phase := .expired pos n
        called :=
          if (s.timers pos).callback ≠ 0 then
            ⟨s.owner pos, (s.timers pos).callback, (s.timers pos).payload, s.updates⟩ :: s.called
          else
            s.called } := by
  unfold visit
  rw [if_neg hne]
  simp only [if_neg (not_not.mpr hcounter)]
  by_cases hcallback : (s.timers pos).callback ≠ 0
  . simp only [if_pos hcallback]
  . simp only [if_neg hcallback]

theorem finish_reload {link : LlistHeader Word} {timer : LxTimer}
    (hperiodic : (s.timers pos).flags &&& timerModePeriodic ≠ 0)
    : s.finish pos n link timer
        =
      { s with
        timers := Function.update s.timers pos { s.timers pos with counter := (s.timers pos).deadline }
        phase := .loop n (s.links n).next } := by
  unfold finish
  simp only [if_pos hperiodic, advance]

theorem finish_release {link : LlistHeader Word} {timer : LxTimer}
    (honce : (s.timers pos).flags &&& timerModePeriodic = 0)
    : s.finish pos n link timer
        =
      { s with
        links := Function.update (llistDelete s.links pos) pos link
        timers := Function.update s.timers pos timer
        owner := Function.update s.owner pos none
        released := ⟨s.owner pos, s.updates⟩ :: s.released
        phase := .loop n (Function.update (llistDelete s.links pos) pos link n).next } := by
  unfold finish
  simp only [if_neg (not_not.mpr honce), advance, lxfree]

end Steps

namespace Inv

theorem timerUpdate (h : s.Inv past done cur late) (hphase : s.phase = .idle)
    : s.timerUpdate.Inv s.updates [] [] done := by
  have hposition := h.position
  unfold Position at hposition
  rw [hphase] at hposition
  obtain ⟨hcur, hlate⟩ := hposition
  subst hcur hlate
  have hall : done ++ [] ++ [] = [] ++ [] ++ done := by simp
  have hlist := h.list
  have howned := h.owned
  have hbalance := h.balance
  rw [hall] at hlist howned hbalance
  have hsame : ∀ i, SameRecord s s.timerUpdate i := fun i => SameRecord.of_eq rfl rfl rfl
  constructor
  . exact ⟨rfl, rfl, hlist.circular.next_head, rfl⟩
  . exact hlist
  . exact howned
  . exact h.apart
  . intro p hp
    cases hp
  . intro p hp
    cases hp
  . intro p hp
    exact (h.doneWith p hp).congr rfl rfl (fun i _ => hsame i)
  . intro i r hr hgone
    exact (h.finished i r hr hgone).next rfl (hsame i)
  . exact h.calledOwn
  . exact h.releasedOwn
  . exact hbalance
  . simp only [List.nil_append] at hbalance
    simp only [Timers.timerUpdate]
    omega

theorem visit_end (h : s.Inv past done [] []) : ({ s with phase := .idle } : Timers).Inv past done [] [] := by
  have hsame : ∀ i, SameRecord s { s with phase := .idle } i := fun i => SameRecord.of_eq rfl rfl rfl
  constructor
  . exact ⟨rfl, rfl⟩
  . exact h.list
  . exact h.owned
  . exact h.apart
  . intro p hp
    exact (h.doneWith p hp).congr rfl rfl (fun i _ => hsame i)
  . intro p hp
    cases hp
  . intro p hp
    cases hp
  . intro i r hr hgone
    exact (h.finished i r hr hgone).congr rfl (hsame i)
  . exact h.calledOwn
  . exact h.releasedOwn
  . exact h.balance
  . exact h.visits

theorem visit {pos n : Word} (h : s.Inv past done cur late) (hphase : s.phase = .loop pos n)
    : ∃ done' cur' late', (s.visit pos n).Inv past done' cur' late' := by
  have hposition := h.position
  unfold Position at hposition
  rw [hphase] at hposition
  obtain ⟨hupdates, hcur, hpos, hn⟩ := hposition
  subst hcur
  cases late with
  | nil =>
    refine ⟨done, [], [], ?_⟩
    unfold Timers.visit
    have hend : pos = s.activeTimers := hpos
    rw [if_pos hend]
    exact h.visit_end
  | cons p rest =>
    simp only [List.headD_cons] at hpos
    subst hpos
    have hne : pos ≠ s.activeTimers := h.list.circular.ne_head (by simp)
    have hnext : n = rest.headD s.activeTimers := by
      rw [hn]
      exact h.list.circular.next_of_append
    obtain ⟨i, r, hi, hr, hwaiting, hrecorded⟩ := h.waiting pos (by simp)
    have howner : s.owner pos ≠ none := by
      rw [hi]
      exact Option.some_ne_none i
    have hlist := h.list
    have hbalance := h.balance
    have hvisits := h.visits
    rw [List.length_cons] at hvisits
    rw [List.append_nil] at hlist hbalance
    by_cases hcounter : (s.timers pos).counter - 1 = 0
    . have hdue := hwaiting.due hcounter
      refine ⟨done, [pos], rest, ?_⟩
      have hall : done ++ [] ++ [pos] ++ rest = done ++ pos :: rest := by simp
      have hcall : (⟨s.owner pos, (s.timers pos).callback, (s.timers pos).payload, s.updates⟩ : Call)
          =
        r.call i s.updates := by
        unfold Registration.call
        rw [hi, hwaiting.of.callback, hwaiting.of.payload]
      rw [visit_expired hne hcounter, hcall, hwaiting.of.callback, ← List.append_nil done]
      apply h.touch rfl
      . intro q hq
        exact List.mem_cons_of_mem pos hq
      . refine Touches.of_timer ?_ rfl rfl rfl rfl rfl hr ?_
        . intro q hq
          exact Function.update_of_ne hq _ _
        . simp only
          split
          . exact Or.inr rfl
          . exact Or.inl rfl
      . exact hi
      . exact ⟨hupdates, rfl, hnext⟩
      . rw [hall]
        exact hlist
      . simp [howner]
      . intro q hq
        cases hq
      . intro q hq
        refine ⟨List.mem_singleton.mp hq, r, ?_⟩
        constructor
        . exact hi
        . exact hr
        . simp only [Function.update_self]
          exact ⟨hwaiting.of.deadline, hwaiting.of.callback, hwaiting.of.payload, hwaiting.of.flags⟩
        . exact hwaiting.pos
        . exact hdue
        . apply hrecorded.call hdue
          . intro hcallback
            simp only [if_pos hcallback, hupdates]
          . rfl
      . intro hnone
        exact absurd hnone howner
      . rw [hall]
        exact hbalance
      . simp only
        omega
    . have hwait := hwaiting.next hcounter
      have hall : done ++ [pos] ++ [] ++ rest = done ++ pos :: rest := by simp
      refine ⟨done ++ [pos], [], rest, ?_⟩
      rw [visit_counting hne hcounter]
      apply h.touch rfl
      . intro q hq
        exact List.mem_cons_of_mem pos hq
      . refine Touches.of_timer ?_ rfl rfl rfl rfl rfl hr (Or.inl rfl)
        intro q hq
        exact Function.update_of_ne hq _ _
      . exact hi
      . exact ⟨hupdates, rfl, hnext, rfl⟩
      . rw [hall]
        exact hlist
      . simp [howner]
      . intro q hq
        refine ⟨List.mem_singleton.mp hq, i, r, hi, hr, ?_, ?_⟩
        . simp only [Function.update_self]
          rw [hupdates]
          exact hwait.1
        . rw [hupdates]
          exact (hrecorded.next hwait.2).congr (SameRecord.of_eq rfl rfl rfl)
      . intro q hq
        cases hq
      . intro hnone
        exact absurd hnone howner
      . rw [hall]
        exact hbalance
      . simp only
        omega

end Inv

namespace Inv

theorem finish {pos n : Word} {link : LlistHeader Word} {timer : LxTimer} (h : s.Inv past done cur late)
    (hphase : s.phase = .expired pos n)
    (hright : (s.timers pos).flags &&& timerModePeriodic = 0 → PrevRight s.links pos)
    : ∃ done', (s.finish pos n link timer).Inv past done' [] late := by
  have hposition := h.position
  unfold Position at hposition
  rw [hphase] at hposition
  obtain ⟨hupdates, hcur, hn⟩ := hposition
  subst hcur
  obtain ⟨i, r, hfiring⟩ := h.firing pos (by simp)
  have hi := hfiring.owner
  have hlist := h.list
  have hbalance := h.balance
  have hvisits := h.visits
  have hin : pos ∈ done ++ [pos] ++ late := by simp
  have hsplit : [pos] ++ late = pos :: late := rfl
  by_cases hperiodic : (s.timers pos).flags &&& timerModePeriodic = 0
  . have honce : ¬r.Periodic := by
      unfold Registration.Periodic
      rw [← hfiring.of.flags, hperiodic]
      exact not_not.mpr rfl
    have hall : done ++ [] ++ [] ++ late = (done ++ [pos] ++ late).erase pos := by
      have hassoc : done ++ [pos] ++ late = done ++ pos :: late := by simp
      have hnodup := (List.nodup_cons.mp hlist.circular.nodup).2
      rw [hassoc] at hnodup
      have hnotin : pos ∉ done := by
        intro hdone
        exact (List.nodup_append.mp hnodup).2.2 pos hdone pos (by simp) rfl
      rw [hassoc, List.erase_append_right _ hnotin, List.erase_cons_head]
      simp
    refine ⟨done, ?_⟩
    rw [finish_release hperiodic, ← List.append_nil done]
    apply h.touch hsplit
    . intro q hq
      exact hq
    . exact Touches.of_release hi rfl
    . exact hi
    . exact ⟨hupdates, rfl, hn, rfl⟩
    . rw [hall]
      have hnotin : pos ∉ (done ++ [pos] ++ late).erase pos := by
        apply List.Nodup.not_mem_erase
        exact (List.nodup_cons.mp hlist.circular.nodup).2
      apply (hlist.delete hin (hright hperiodic)).congr
      intro q hq
      apply Function.update_of_ne
      intro heq
      cases List.mem_cons.mp hq with
      | inl hhead =>
        rw [heq] at hhead
        exact hlist.circular.ne_head hin hhead
      | inr hrest =>
        rw [heq] at hrest
        exact hnotin hrest
    . simp
    . intro q hq
      cases hq
    . intro q hq
      cases hq
    . intro _ q hq
      have hqr : q = r := by
        rw [hfiring.registered] at hq
        cases hq
        rfl
      subst hqr
      have hend := hfiring.due.eq_of_oneShot honce
      constructor
      . exact honce
      . simp only
        omega
      . simp only [hupdates]
        apply hfiring.recorded.release honce hfiring.due
        . rfl
        . simp only [hi]
    . rw [hall, List.length_erase_of_mem hin]
      simp only [List.length_cons]
      have hpos := List.length_pos_of_mem hin
      omega
    . exact hvisits
  . have hall : done ++ [pos] ++ [] ++ late = done ++ [pos] ++ late := by simp
    refine ⟨done ++ [pos], ?_⟩
    rw [finish_reload hperiodic]
    apply h.touch hsplit
    . intro q hq
      exact hq
    . refine Touches.of_timer ?_ rfl rfl rfl rfl rfl hfiring.registered (Or.inl rfl)
      intro q hq
      exact Function.update_of_ne hq _ _
    . exact hi
    . exact ⟨hupdates, rfl, hn, rfl⟩
    . rw [hall]
      exact hlist
    . simp [hi]
    . have hperiodic' : r.Periodic := by
        unfold Registration.Periodic
        rw [← hfiring.of.flags]
        exact hperiodic
      intro q hq
      refine ⟨List.mem_singleton.mp hq, i, r, hi, hfiring.registered, ?_, ?_⟩
      . simp only [Function.update_self]
        rw [hupdates]
        exact LxTimer.Waiting.reload hfiring.of hfiring.pos hfiring.due hperiodic'
      . rw [hupdates]
        exact (hfiring.recorded.reload hperiodic').congr (SameRecord.of_eq rfl rfl rfl)
    . intro q hq
      cases hq
    . intro hnone
      rw [hi] at hnone
      cases hnone
    . rw [hall]
      exact hbalance
    . exact hvisits

end Inv

end Timers

end AwaOS
