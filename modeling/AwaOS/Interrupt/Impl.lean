import AwaOS.Page.Basic

/-!
The dispatch of interrupts, `kernel/asm/x86/interrupts.c`, and the routines of `kernel/asm/x86/intr_routines.c`.
-/

namespace AwaOS

def faultDivisionError : BitVec 8 := 0

def faultGeneralProtection : BitVec 8 := 13

def faultPageFault : BitVec 8 := 14

def awaSysPanic : BitVec 8 := 32

def exInterruptBegin : Word := 200

def apicErrorIv : BitVec 8 := 200

def apicSpivIv : BitVec 8 := 203

/--
What a variable of type `int_subscriber` can point to, apart from `NULL`.
-/
inductive IntSubscriber where
  | intrRoutineDivideZero
  | intrRoutineGeneralProtection
  | intrRoutinePageFault
  | intrRoutineSysPanic
  | intrRoutineFallback
  | intrRoutineApicSpi
  | intrRoutineApicError
  | intrSetFallbackHandler
  /-- Any other function of the kernel. -/
  | other (addr : Word)
  /-- An `isr_param`, which is not a function at all. -/
  | isrParam (addr : Word)
  deriving DecidableEq

/--
An `isr_param` at `addr`, with the fields that are used.
-/
structure IsrParam where
  addr : Word
  edi : Word
  vector : Word
  errCode : Word
  eip : Word
  cs : Word
  deriving DecidableEq

/--
The message of a panic. The one of `intr_routine_sys_panic` is wherever `%edi` points to.
-/
inductive PanicMsg where
  | text (s : String)
  | pageFaultOn (pgFaultPtr : Word)
  | apicError (errorReg : Word)
  | stringAt (addr : Word)
  deriving DecidableEq

/--
What can be seen of a delivery from outside.
-/
inductive IntrEvent where
  | call (f : IntSubscriber)
  | panic (msg : PanicMsg) (param : IsrParam)
  /-- The write of `apic_done_servicing` to the EOI register. -/
  | eoi
  deriving DecidableEq

/--
The static variables of `interrupts.c`. `none` is `NULL`.
-/
structure IntrState where
  subscribers : BitVec 8 → Option IntSubscriber
  fallback : Option IntSubscriber

/--
How a call ends: it returns, it spins forever, or control is lost in memory that holds no code.
-/
inductive Outcome where
  | returned (st : IntrState)
  | spins (st : IntrState)
  | lost

/--
The variables afterwards, as far as anything can be said about them.
-/
def Outcome.state : Outcome → Option IntrState
  | .returned st => some st
  | .spins st => some st
  | .lost => none

structure Delivery where
  events : List IntrEvent
  outcome : Outcome

/--
The registers that the routines read, and which of the other functions return. They do not change the
variables of `interrupts.c`.
-/
structure IntrEnv where
  cr2 : Word
  apicEsr : Word
  returns : Word → Bool

def intrSubscribe (st : IntrState) (vector : BitVec 8) (subscriber : Option IntSubscriber) : IntrState :=
  { st with subscribers := Function.update st.subscribers vector subscriber }

def intrUnsubscribe (st : IntrState) (vector : BitVec 8) (subscriber : Option IntSubscriber) : IntrState :=
  if st.subscribers vector = subscriber then
    { st with subscribers := Function.update st.subscribers vector none }
  else
    st

def intrSetFallbackHandler (st : IntrState) (subscribers : Option IntSubscriber) : IntrState :=
  { st with fallback := subscribers }

def intrRoutinePageFault.msg (env : IntrEnv) : PanicMsg :=
  if env.cr2 = 0 then
    .text "Null pointer reference"
  else
    .pageFaultOn env.cr2

/--
`subscriber(param)`
-/
def IntSubscriber.run (env : IntrEnv) (st : IntrState) (param : IsrParam) : IntSubscriber → Delivery
  | .intrRoutineDivideZero => ⟨[.panic (.text "Divide by zero!") param], .spins st⟩
  | .intrRoutineGeneralProtection => ⟨[.panic (.text "General Protection") param], .spins st⟩
  | .intrRoutinePageFault => ⟨[.panic (intrRoutinePageFault.msg env) param], .spins st⟩
  | .intrRoutineSysPanic => ⟨[.panic (.stringAt param.edi) param], .spins st⟩
  | .intrRoutineFallback => ⟨[.panic (.text "Unknown Interrupt") param], .spins st⟩
  | .intrRoutineApicSpi => ⟨[], .returned st⟩
  | .intrRoutineApicError => ⟨[.panic (.apicError env.apicEsr) param], .spins st⟩
  -- its argument is the `isr_param`
  | .intrSetFallbackHandler => ⟨[], .returned (AwaOS.intrSetFallbackHandler st (some (.isrParam param.addr)))⟩
  | .other addr => ⟨[], if env.returns addr then .returned st else .spins st⟩
  | .isrParam _ => ⟨[], .lost⟩

def IntSubscriber.call (env : IntrEnv) (st : IntrState) (param : IsrParam) (f : IntSubscriber) : Delivery :=
  let d := f.run env st param
  { d with events := .call f :: d.events }

/--
The label `done` of `intr_handler`, which is only reached if the call before it returns.
-/
def intrHandler.done (param : IsrParam) (d : Delivery) : Delivery :=
  match d.outcome with
  | .returned _ =>
    if exInterruptBegin ≤ param.vector ∧ param.vector ≠ apicSpivIv.setWidth 32 then
      { d with events := d.events ++ [.eoi] }
    else
      d
  | _ => d

/--
`if (param->vector <= 255) { ... subscribers[param->vector] ... }`
-/
def IntrState.subscriberOf (st : IntrState) (vector : Word) : Option IntSubscriber :=
  if vector ≤ 255 then
    st.subscribers (vector.setWidth 8)
  else
    none

def intrHandler (env : IntrEnv) (st : IntrState) (param : IsrParam) : Delivery :=
  intrHandler.done param <|
    match st.subscriberOf param.vector with
    | some subscriber => subscriber.call env st param
    | none =>
      match st.fallback with
      | some fallback => fallback.call env st param
      | none => ⟨[.panic (.text "Unknown") param], .returned st⟩

def intrRoutineInit (st : IntrState) : IntrState :=
  let st := intrSubscribe st faultDivisionError (some .intrRoutineDivideZero)
  let st := intrSubscribe st faultGeneralProtection (some .intrRoutineGeneralProtection)
  let st := intrSubscribe st faultPageFault (some .intrRoutinePageFault)
  let st := intrSubscribe st awaSysPanic (some .intrRoutineSysPanic)
  let st := intrSubscribe st apicSpivIv (some .intrRoutineApicSpi)
  let st := intrSubscribe st apicErrorIv (some .intrRoutineApicError)
  intrSetFallbackHandler st (some .intrSetFallbackHandler)

end AwaOS
