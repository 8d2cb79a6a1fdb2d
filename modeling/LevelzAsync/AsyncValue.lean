import LevelzAsync.CountDownEvent
import LevelzAsync.SyncTaskGet

/-!
# The result of an `AsyncTask`

The promise of an `AsyncTask` keeps its result in an `AsyncValue`: `return_value` and
`unhandled_exception` store it, set the status and signal the `AsyncEvent`, a counting
event with `maxCount = 1` that nobody resets. Any number of coroutines await the task, each
of which may do so again; they hold a handle of the task meanwhile, so its value is not
cleared. A coroutine is resumed by a pool when nobody has it waiting any more, by its own
`schedule`, or because `await_suspend` has returned false. A coroutine that was abandoned
and shall be cancelled for it has been cancelled before.

Two kinds of assertions are followed: those of `AsyncEvent::signal` about the count, and the
one of `await_suspend` after `enqueue`. Those about a status, the current coroutine or the
kind of a pool are not, for these are no part of the state; and so `onResume` does not wait
for the end of a cancellation here, as it does while it finds the status `Paused`.
-/

namespace LevelzAsync.AsyncValue

open SyncTaskGet (Variant)

/-- The next step of `return_value` or `unhandled_exception`, and of `AsyncEvent::signal`
in it, which a thread makes while it is inside `countDown`. -/
inductive ProducerPc (Thread E V : Type*)
  | body
  | store (r : Except E V)
  | setReturned
  | assertCount
  | countDown
  | signalling (t : Thread)
  | assertCountAfter
  | signalled

/-- The next step of a coroutine in `await_ready`, `await_suspend` and `await_resume`. -/
inductive AwaitPc (E V : Type*)
  | idle
  | onReady
  | readyIsSignaled
  | onSuspend
  | suspendIsSignaled (shouldSuspend : Bool)
  | enqueue (shouldSuspend : Bool)
  | enqueueing (shouldSuspend : Bool)
  | refused (shouldSuspend : Bool)
  | parked
  | scheduled
  | onResume
  | checkException
  | getValue
  | got (r : Except E V)
  | cancellationError
  | badVariantAccess

def ProducerPc.signals {Thread E V : Type*} [DecidableEq Thread] (t : Thread) :
    ProducerPc Thread E V → Bool
  | .signalling u => u = t
  | _ => false

def AwaitPc.inFlight {E V : Type*} : AwaitPc E V → Bool
  | .idle | .got _ | .cancellationError | .badVariantAccess => false
  | _ => true

/-- `outcome` is how the body has ended, `cancelled` are the flags `m_cancelled` of the
awaiting coroutines, and `assertFailed` records a failure of an assertion. -/
structure State (Thread Co E V : Type*) where
  event : CountDownEvent.State Thread Co
  value : Variant E V
  producer : ProducerPc Thread E V
  awaiter : Co → AwaitPc E V
  cancelled : Co → Bool
  outcome : Option (Except E V)
  assertFailed : Bool

/-- `awaiter` is the next step of a coroutine outside `enqueue`, on a thread of which only
the calls matter. -/
inductive Action (Thread Co E V : Type*)
  | finish (r : Except E V)
  | producer (t : Thread)
  | await (c : Co)
  | awaiter (c : Co) (t : Thread)
      (sameThreadPoolKind canDoChainedExecution isImmediateShutdownRequested : Bool)
  | call (t : Thread) (spurious : Bool)
  | cancel (c : Co)
  | cancelAwaiter (c : Co) (t : Thread)

section Machine

variable {Thread Co E V : Type*} [DecidableEq Thread] [DecidableEq Co]

def State.put (s : State Thread Co E V) (c : Co) (pc : AwaitPc E V) : State Thread Co E V :=
  { s with awaiter := Function.update s.awaiter c pc }

def State.finish (s : State Thread Co E V) (r : Except E V) :
    ProducerPc Thread E V → Option (State Thread Co E V)
  | .body => some { s with producer := .store r, outcome := some r }
  | _ => none

/-- The steps of the promise outside `countDown`. -/
def State.producerStep (s : State Thread Co E V) (t : Thread) :
    ProducerPc Thread E V → Option (State Thread Co E V)
  | .store r => some { s with value := .ofOutcome r, producer := .setReturned }
  | .setReturned => some { s with producer := .assertCount }
  | .assertCount =>
      some { s with
        producer := .countDown
        assertFailed := s.assertFailed || !(s.event.count ≤ 1) }
  | .countDown =>
      (CountDownEvent.step s.event (.countDown t)).map fun event =>
        { s with event := event, producer := .signalling t }
  | .assertCountAfter =>
      some { s with
        producer := .signalled
        assertFailed := s.assertFailed || !(s.event.count ≤ 1) }
  | .body | .signalling _ | .signalled => none

def AwaitPc.afterOnReady : SuspensionAdvice → AwaitPc E V
  | .shouldNotSuspend => .onResume
  | .shouldSuspend => .onSuspend
  | .maySuspend => .readyIsSignaled

def AwaitPc.afterOnSuspend : SuspensionAdvice → AwaitPc E V
  | .shouldNotSuspend => .onResume
  | .shouldSuspend => .suspendIsSignaled true
  | .maySuspend => .suspendIsSignaled false

/-- The coroutine goes on without the event: it schedules itself, or `await_suspend` returns
false. -/
def AwaitPc.goOn (shouldSuspend : Bool) : AwaitPc E V :=
  if shouldSuspend = true then .scheduled else .onResume

/-- `await_ready`, `await_suspend` and `await_resume` outside `enqueue`. -/
def State.awaiterStep (s : State Thread Co E V) (c : Co) (t : Thread)
    (sameThreadPoolKind canDoChainedExecution isImmediateShutdownRequested : Bool) :
    AwaitPc E V → Option (State Thread Co E V)
  | .onReady =>
      some (s.put c (.afterOnReady (AwaiterKind.value.onReady sameThreadPoolKind
        canDoChainedExecution .running false (s.cancelled c))))
  | .readyIsSignaled => some (s.put c (if s.event.isZero = true then .onResume else .onSuspend))
  | .onSuspend =>
      some (s.put c (.afterOnSuspend (AwaiterKind.value.onSuspend sameThreadPoolKind
        canDoChainedExecution .running false (s.cancelled c))))
  | .suspendIsSignaled shouldSuspend =>
      some (s.put c (if s.event.isZero = true then .goOn shouldSuspend
        else .enqueue shouldSuspend))
  | .enqueue shouldSuspend =>
      (CountDownEvent.step s.event (.enqueue c t)).map fun event =>
        { s.put c (.enqueueing shouldSuspend) with event := event }
  | .refused shouldSuspend =>
      some { s.put c (.goOn shouldSuspend) with
        assertFailed := s.assertFailed || !s.event.isZero }
  | .parked => if s.event.awaits c = true then none else some (s.put c .onResume)
  | .scheduled => some (s.put c .onResume)
  | .onResume =>
      some (if isImmediateShutdownRequested = true then
          { s.put c .cancellationError with cancelled := Function.update s.cancelled c true }
        else s.put c (if s.cancelled c = true then .cancellationError else .checkException))
  | .checkException =>
      some (s.put c (match s.value with
        | .exception (some e) => .got (.error e)
        | _ => .getValue))
  | .getValue =>
      some (s.put c (match s.value with
        | .value v => .got (.ok v)
        | .exception _ => .badVariantAccess))
  | .idle | .enqueueing _ | .got _ | .cancellationError | .badVariantAccess => none

def AwaitPc.refuse : AwaitPc E V → AwaitPc E V
  | .enqueueing shouldSuspend => .refused shouldSuspend
  | pc => pc

/-- What the next step of a call means to the coroutine that is being enqueued: it is refused
or put into the wait list. -/
def State.awaiterAfter (s : State Thread Co E V) :
    CountDownEvent.Call Co → Co → AwaitPc E V
  | .enqueueIsZero c =>
      if s.event.isZero = true then Function.update s.awaiter c (s.awaiter c).refuse
      else s.awaiter
  | .enqueuePush c => Function.update s.awaiter c .parked
  | _ => s.awaiter

/-- `countDown` returns to `signal` with the last step of the thread's call. -/
def ProducerPc.after (producer : ProducerPc Thread E V) (t : Thread)
    (p : CountDownEvent.Call Co) : ProducerPc Thread E V :=
  if producer.signals t = true ∧ p = .idle then .assertCountAfter else producer

def State.callStep (s : State Thread Co E V) (t : Thread) (spurious : Bool) :
    Option (State Thread Co E V) :=
  (CountDownEvent.step s.event (.call t spurious)).map fun event =>
    { s with
      event := event
      awaiter := s.awaiterAfter (s.event.call t)
      producer := s.producer.after t (event.call t) }

def step (s : State Thread Co E V) : Action Thread Co E V → Option (State Thread Co E V)
  | .finish r => s.finish r s.producer
  | .producer t => s.producerStep t s.producer
  | .await c =>
      -- `await_transform`
      if (s.awaiter c).inFlight = false then
        some (s.put c (if s.cancelled c = true then .cancellationError else .onReady))
      else none
  | .awaiter c t sameThreadPoolKind canDoChainedExecution isImmediateShutdownRequested =>
      s.awaiterStep c t sameThreadPoolKind canDoChainedExecution isImmediateShutdownRequested
        (s.awaiter c)
  | .call t spurious => s.callStep t spurious
  | .cancel c => some { s with cancelled := Function.update s.cancelled c true }
  | .cancelAwaiter c t =>
      if s.cancelled c = true then
        (CountDownEvent.step s.event (.cancel c t)).map fun event => { s with event := event }
      else none

def initial : State Thread Co E V where
  event := CountDownEvent.initial false 1
  value := .exception none
  producer := .body
  awaiter _ := .idle
  cancelled _ := false
  outcome := none
  assertFailed := false

def system (Thread Co E V : Type*) [DecidableEq Thread] [DecidableEq Co] :
    StepSystem (State Thread Co E V) (Action Thread Co E V) where
  start s := s = initial
  step := step

end Machine

end LevelzAsync.AsyncValue
