import AwaOS.Interrupt.Impl

/-!
Runs of the interrupt dispatch from `intr_routine_init`. The fallback that is registered there is not
`intr_routine_fallback` but the function that registers a fallback.
-/

namespace AwaOS

/--
The functions that were called, in order.
-/
def Delivery.called (d : Delivery) : List IntSubscriber :=
  d.events.filterMap (fun | .call f => some f | _ => none)

def Delivery.eoiWrites (d : Delivery) : Nat :=
  d.events.count .eoi

/--
What a delivery in state `st` should do.
-/
structure Dispatched (st : IntrState) (param : IsrParam) (d : Delivery) : Prop where
  subscribed : ∀ f, st.subscriberOf param.vector = some f → d.called = [f]
  fallback : param.vector < 256 → st.subscriberOf param.vector = none → d.called = [.intrRoutineFallback]
  unchanged : st.subscriberOf param.vector = none → d.outcome.state = some st
  eoi : ∀ st', d.outcome = .returned st' →
    d.eoiWrites = if exInterruptBegin ≤ param.vector ∧ param.vector ≠ apicSpivIv.setWidth 32 then 1 else 0

section Done

variable (param : IsrParam) (d : Delivery)

@[simp]
theorem called_done : (intrHandler.done param d).called = d.called := by
  unfold intrHandler.done
  split
  . split
    . simp [Delivery.called]
    . rfl
  . rfl

@[simp]
theorem outcome_done : (intrHandler.done param d).outcome = d.outcome := by
  unfold intrHandler.done
  split
  . split
    . rfl
    . rfl
  . rfl

theorem eoiWrites_done {st' : IntrState} (hret : d.outcome = .returned st') (hnone : d.eoiWrites = 0)
    : (intrHandler.done param d).eoiWrites
        =
      if exInterruptBegin ≤ param.vector ∧ param.vector ≠ apicSpivIv.setWidth 32 then 1 else 0 := by
  unfold intrHandler.done
  rw [hret]
  dsimp only
  split
  . unfold Delivery.eoiWrites at *
    simp [hnone]
  . exact hnone

end Done

section Call

variable (env : IntrEnv) (st : IntrState) (param : IsrParam) (f : IntSubscriber)

@[simp]
theorem called_call : (f.call env st param).called = [f] := by
  cases f <;> rfl

@[simp]
theorem eoiWrites_call : (f.call env st param).eoiWrites = 0 := by
  cases f <;> rfl

end Call

/--
A vector with a subscriber is dispatched as it should be.
-/
theorem dispatched_of_subscriber (env : IntrEnv) (st : IntrState) (param : IsrParam)
    (h : st.subscriberOf param.vector ≠ none)
    : Dispatched st param (intrHandler env st param) := by
  obtain ⟨f, hf⟩ := Option.ne_none_iff_exists'.mp h
  unfold intrHandler
  rw [hf]
  dsimp only
  constructor
  . intro g hg
    rw [called_done, called_call, Option.some.inj (hf.symm.trans hg)]
  . intro _ hnone
    exact absurd hnone h
  . intro hnone
    exact absurd hnone h
  . intro st' hret
    rw [outcome_done] at hret
    exact eoiWrites_done param _ hret (eoiWrites_call env st param f)

/--
The fallbacks that are ever registered.
-/
def WrongFallback (st : IntrState) : Prop :=
  st.fallback = some .intrSetFallbackHandler ∨ ∃ addr, st.fallback = some (.isrParam addr)

theorem not_dispatched_of_no_subscriber (env : IntrEnv) {st : IntrState} (param : IsrParam)
    (hwrong : WrongFallback st) (hnone : st.subscriberOf param.vector = none)
    : ¬Dispatched st param (intrHandler env st param) := by
  intro h
  have hkept := h.unchanged hnone
  unfold intrHandler at hkept
  rw [hnone, outcome_done] at hkept
  cases hwrong with
  | inl hset =>
    -- the call replaces the fallback by its own argument
    rw [hset] at hkept
    have hfallback := congrArg IntrState.fallback (Option.some.inj hkept)
    rw [hset] at hfallback
    exact IntSubscriber.noConfusion (Option.some.inj hfallback)
  | inr hparam =>
    obtain ⟨addr, hparam⟩ := hparam
    rw [hparam] at hkept
    contradiction

theorem wrongFallback_init (st : IntrState) : WrongFallback (intrRoutineInit st) := by
  exact Or.inl rfl

/--
A call that returns keeps the variables or registers the `isr_param` as the fallback.
-/
theorem call_returned (env : IntrEnv) {st st' : IntrState} (param : IsrParam) (f : IntSubscriber)
    (hret : (f.call env st param).outcome = .returned st')
    : st' = st ∨ st' = intrSetFallbackHandler st (some (.isrParam param.addr)) := by
  unfold IntSubscriber.call IntSubscriber.run at hret
  split at hret
  case h_6 => exact Or.inl (Outcome.returned.inj hret).symm
  case h_8 => exact Or.inr (Outcome.returned.inj hret).symm
  case h_9 addr =>
    dsimp only at hret
    split at hret
    . exact Or.inl (Outcome.returned.inj hret).symm
    . contradiction
  all_goals contradiction

theorem WrongFallback.handler (env : IntrEnv) {st st' : IntrState} (param : IsrParam) (h : WrongFallback st)
    (hret : (intrHandler env st param).outcome = .returned st')
    : WrongFallback st' := by
  have hcall : ∀ f : IntSubscriber, (f.call env st param).outcome = .returned st' → WrongFallback st' := by
    intro f hf
    cases call_returned env param f hf with
    | inl hsame => rwa [hsame]
    | inr hset =>
      rw [hset]
      exact Or.inr ⟨param.addr, rfl⟩
  unfold intrHandler at hret
  rw [outcome_done] at hret
  split at hret
  . exact hcall _ hret
  . split at hret
    . exact hcall _ hret
    . rwa [← Outcome.returned.inj hret]

theorem WrongFallback.subscribe {st : IntrState} (h : WrongFallback st) (vector : BitVec 8)
    (subscriber : Option IntSubscriber)
    : WrongFallback (intrSubscribe st vector subscriber) := by
  exact h

theorem WrongFallback.unsubscribe {st : IntrState} (h : WrongFallback st) (vector : BitVec 8)
    (subscriber : Option IntSubscriber)
    : WrongFallback (intrUnsubscribe st vector subscriber) := by
  unfold intrUnsubscribe
  split
  . exact h
  . exact h

inductive IntrOp where
  | subscribe (vector : BitVec 8) (subscriber : Option IntSubscriber)
  | unsubscribe (vector : BitVec 8) (subscriber : Option IntSubscriber)
  | deliver (param : IsrParam)

/--
The deliveries of a run, each with the state in which it starts. There is nothing after a delivery that
does not return.
-/
def deliveries (env : IntrEnv) (st : IntrState) : List IntrOp → List (IntrState × IsrParam)
  | [] => []
  | .subscribe vector subscriber :: ops => deliveries env (intrSubscribe st vector subscriber) ops
  | .unsubscribe vector subscriber :: ops => deliveries env (intrUnsubscribe st vector subscriber) ops
  | .deliver param :: ops =>
    (st, param) ::
      match (intrHandler env st param).outcome with
      | .returned st' => deliveries env st' ops
      | _ => []

theorem WrongFallback.deliveries (env : IntrEnv) {st : IntrState} (h : WrongFallback st) (ops : List IntrOp)
    : ∀ d ∈ deliveries env st ops, WrongFallback d.1 := by
  induction ops generalizing st with
  | nil => exact fun d hd => absurd hd List.not_mem_nil
  | cons op ops ih =>
    cases op with
    | subscribe vector subscriber => exact ih (h.subscribe vector subscriber)
    | unsubscribe vector subscriber => exact ih (h.unsubscribe vector subscriber)
    | deliver param =>
      intro d hd
      cases List.mem_cons.mp hd with
      | inl heq =>
        rw [heq]
        exact h
      | inr hrest =>
        split at hrest
        . next hret => exact ih (h.handler env param hret) d hrest
        . exact absurd hrest List.not_mem_nil

/--
After `intr_routine_init` the deliveries of a run are dispatched as they should be if and only if each of
them finds a subscriber.
-/
theorem intrHandler_dispatched_iff (env : IntrEnv) (st : IntrState) (ops : List IntrOp)
    : (∀ d ∈ deliveries env (intrRoutineInit st) ops, Dispatched d.1 d.2 (intrHandler env d.1 d.2))
        ↔
      ∀ d ∈ deliveries env (intrRoutineInit st) ops, d.1.subscriberOf d.2.vector ≠ none := by
  have hwrong := (wrongFallback_init st).deliveries env ops
  constructor
  . intro h d hd hnone
    exact not_dispatched_of_no_subscriber env d.2 (hwrong d hd) hnone (h d hd)
  . intro h d hd
    exact dispatched_of_subscriber env d.1 d.2 (h d hd)

/--
`APIC_LINT0_IV`, which has a gate but no subscriber.
-/
def strayParam : IsrParam :=
  { addr := 0xC0200000, edi := 0, vector := 201, errCode := 0, eip := 0xC0100000, cs := 0x08 }

def bootIntrState : IntrState :=
  intrRoutineInit { subscribers := fun _ => none, fallback := none }

def bootIntrEnv : IntrEnv :=
  { cr2 := 0, apicEsr := 0, returns := fun _ => true }

/--
The first delivery makes its `isr_param` the fallback, the second one jumps into it.
-/
theorem intrHandler_replaces_fallback
    : (intrHandler bootIntrEnv bootIntrState strayParam).called = [.intrSetFallbackHandler]
        ∧ ¬Dispatched bootIntrState strayParam (intrHandler bootIntrEnv bootIntrState strayParam)
        ∧
      ∃ st, (intrHandler bootIntrEnv bootIntrState strayParam).outcome = .returned st
        ∧ (intrHandler bootIntrEnv st strayParam).called = [.isrParam 0xC0200000]
        ∧ (intrHandler bootIntrEnv st strayParam).outcome = .lost := by
  refine ⟨rfl, ?_, _, rfl, rfl, rfl⟩
  intro h
  have hcalled : [IntSubscriber.intrSetFallbackHandler] = [.intrRoutineFallback] := h.fallback (by decide) rfl
  contradiction

end AwaOS
