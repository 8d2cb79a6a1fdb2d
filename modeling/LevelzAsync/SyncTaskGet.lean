import LevelzAsync.LifecycleDone
import LevelzAsync.SyncManualResetEvent

/-!
# The result of a `SyncTask`

The promise of a `SyncTask` over the life of its coroutine: the body ends with a value,
which `return_value` stores before `setStatus(Returned)`, or with an exception, which
`unhandled_exception` stores after it. The final awaiter, or the completed-state task,
sets `m_event`, and any number of threads are in `get`, which waits for the event,
asserts `isDone()` and reads the result in `m_value`. The threads are `some t`, and
`none` is the one that sets the event. The specialisation `SyncTask<ValueType&&>`, whose
`get` moves the value out of the promise, is left out.
-/

namespace LevelzAsync.SyncTaskGet

open CoroutineStatus

/-- `m_value`, with an exception pointer that is null at first. -/
inductive Variant (E V : Type*)
  | exception (e : Option E)
  | value (v : V)
  deriving DecidableEq

def Variant.ofOutcome {E V : Type*} : Except E V → Variant E V
  | .ok v => .value v
  | .error e => .exception (some e)

/-- The next step of the promise: in `return_value` and `unhandled_exception`, then before,
in and after `m_event.set()`. -/
inductive PromisePc (E V : Type*)
  | body
  | storeValue (v : V)
  | setReturned (caught : Option E)
  | storeException (e : E)
  | returned
  | setting
  | set
  deriving DecidableEq

/-- The next step of `SyncTaskPromise::value`, with the loads of `checkResult`. -/
inductive GetPc (E V : Type*)
  | idle
  | wait
  | isDone
  | holdsException
  | getValue
  | got (r : Except E V)
  | badVariantAccess

def GetPc.inFlight {E V : Type*} : GetPc E V → Bool
  | .wait | .isDone | .holdsException | .getValue => true
  | _ => false

/-- `outcome` is how the body has ended, and `assertFailed` records a failure of the
assertion in `checkResult`. -/
structure State (Thread E V : Type*) where
  life : Lifecycle.State
  event : SyncManualResetEvent.State (Option Thread)
  value : Variant E V
  promise : PromisePc E V
  get : Thread → GetPc E V
  outcome : Option (Except E V)
  assertFailed : Bool

inductive Action (Thread E V : Type*)
  | life (a : Lifecycle.Action)
  | finish (r : Except E V)
  | promise (notified : Option Thread)
  | get (t : Thread)
  | reader (t : Thread) (notified : Option Thread)
  | spurious (t : Option Thread)

section Machine

variable {Thread E V : Type*}

/-- The coroutine and the completed-state task come to the step of the life only when what
the promise does before it is done. -/
def PromisePc.permits (life : Lifecycle.State) (promise : PromisePc E V) :
    Lifecycle.Action → Bool
  | .body .finish => false
  | .own .. =>
      match life.own, promise with
      | .setReturned, .setReturned _ | .countCheck, .returned | .countDownLast, .set => true
      | .setReturned, _ | .countCheck, _ | .countDownLast, _ => false
      | _, _ => true
  | .completion =>
      match life.completion, promise with
      | .signalOwner, .set => true
      | .signalOwner, _ => false
      | _, _ => true
  | _ => true

/-- `setStatus(Returned)` returns. -/
def PromisePc.afterReturned : PromisePc E V → PromisePc E V
  | .setReturned (some e) => .storeException e
  | .setReturned none => .returned
  | promise => promise

/-- The statuses at which `destroyOrAbandon` calls `clearValue`. -/
def clears (status : CoroutineStatus) : Bool :=
  status = returned ∨ status = returnedCompleted ∨ status = finalSuspended ∨
    status = completedFinalSuspended ∨ status = yielded ∨ status = yieldedSuspended

def Variant.afterLife (value : Variant E V) (life : Lifecycle.State) :
    Lifecycle.Action → Variant E V
  | .holder .. =>
      if life.holder = .clearValue ∧ clears life.status = true then .exception none else value
  | _ => value

def State.lifeStep (s : State Thread E V) (a : Lifecycle.Action) : Option (State Thread E V) :=
  if s.promise.permits s.life a = true then
    (Lifecycle.step s.life a).map fun life =>
      { s with
        life := life
        value := s.value.afterLife s.life a
        promise :=
          if s.life.own = .setReturned ∧ life.own = .countCheck then s.promise.afterReturned
          else s.promise }
  else none

/-- The final awaiter has made `setStatus(Completed)`, or the completed-state task begins. -/
def setsEvent (life : Lifecycle.State) : Bool :=
  life.own = .countDownLast ∨ life.completion = .signalOwner

variable [DecidableEq Thread]

def State.promiseStep (s : State Thread E V) (notified : Option Thread) :
    Option (State Thread E V) :=
  match s.promise with
  | .storeValue v => some { s with value := .value v, promise := .setReturned none }
  | .storeException e => some { s with value := .exception (some e), promise := .returned }
  | .returned =>
      if setsEvent s.life = true then
        (SyncManualResetEvent.step s.event (.set none)).map fun event =>
          { s with event := event, promise := .setting }
      else none
  | .setting =>
      (SyncManualResetEvent.step s.event (.call none notified)).map fun event =>
        { s with event := event, promise := if event.call none = .idle then .set else .setting }
  | .body | .setReturned _ | .set => none

def State.put (s : State Thread E V) (t : Thread) (pc : GetPc E V) : State Thread E V :=
  { s with get := Function.update s.get t pc }

def State.readerStep (s : State Thread E V) (t : Thread) (notified : Option Thread) :
    GetPc E V → Option (State Thread E V)
  | .wait =>
      if s.event.call (some t) = .idle then some (s.put t .isDone)
      else
        (SyncManualResetEvent.step s.event (.call (some t) notified)).map fun event =>
          { s with event := event }
  | .isDone =>
      some { s.put t .holdsException with
        assertFailed := s.assertFailed || !s.life.status.isDone }
  | .holdsException =>
      some (s.put t (match s.value with
        | .exception (some e) => .got (.error e)
        | _ => .getValue))
  | .getValue =>
      some (s.put t (match s.value with
        | .value v => .got (.ok v)
        | .exception _ => .badVariantAccess))
  | .idle | .got _ | .badVariantAccess => none

def step (s : State Thread E V) (a : Action Thread E V) : Option (State Thread E V) :=
  if s.life.aborted = true then none
  else match a with
    | .life a => s.lifeStep a
    | .finish r =>
        if s.life.own = .body then
          (Lifecycle.step s.life (.body .finish)).map fun life =>
            { s with
              life := life
              promise := match r with
                | .ok v => .storeValue v
                | .error e => .setReturned (some e)
              outcome := some r }
        else none
    | .promise notified => s.promiseStep notified
    | .get t =>
        if s.life.holder.holdsHandle = true ∧ (s.get t).inFlight = false then
          (SyncManualResetEvent.step s.event (.wait (some t))).map fun event =>
            { s.put t .wait with event := event }
        else none
    | .reader t notified => s.readerStep t notified (s.get t)
    | .spurious t =>
        (SyncManualResetEvent.step s.event (.spurious t)).map fun event =>
          { s with event := event }

def initial (cancelAbandoned : Bool) : State Thread E V where
  life := Lifecycle.initial .sync cancelAbandoned
  event := SyncManualResetEvent.initial false
  value := .exception none
  promise := .body
  get _ := .idle
  outcome := none
  assertFailed := false

def system (Thread E V : Type*) [DecidableEq Thread] :
    StepSystem (State Thread E V) (Action Thread E V) where
  start s := ∃ cancelAbandoned, s = initial cancelAbandoned
  step := step

/-- The handle is not dropped while a thread is in `get`. -/
def Kept (s : State Thread E V) : Action Thread E V → Prop
  | .life .drop => ∀ t, (s.get t).inFlight = false
  | _ => True

end Machine

end LevelzAsync.SyncTaskGet
