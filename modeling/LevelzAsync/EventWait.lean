import LevelzAsync.CoroutineStatus
import LevelzAsync.StepSystem
import Mathlib.Data.List.Nodup

/-!
# Waiting for an event that stays unset, and cancelling the wait

Coroutines await one `AsyncCountDownEvent` whose count is never zero, or an
`AsyncValue` on top of it, so `isZero` is false whenever it is read and
`resumeWaiting` never runs; no pool shuts down. Each coroutine is cancelled by
at most one call of `Coroutine::cancel`, in a thread of its own. The wait list is
the atomic queue that `ConcurrentFifoList` was shown to be, with its `m_count`
updated in a step after the queue. A step that aborts the program is no step.
-/

namespace LevelzAsync.EventWait

open CoroutineStatus

inductive WaitPc
  | onReady
  | readyCancelled
  | suspendCancelled
  | suspend (isCancelled : Bool)
  | isSignaled
  | setMaybeBlocked
  | enqueue
  | countUp
  | setWaitListed
  | suspended
  | notSuspended
  deriving DecidableEq

/-- The next step of `Awaiter::onResume`. -/
inductive ResumePc
  | idle
  | removeAwaiter
  | setRunning
  | spinPaused
  | checkCancelled
  | resumed (cancellationError : Bool)
  deriving DecidableEq

/-- The next step of `Coroutine::cancel` and of the `remove` of the wait list
that it comes to, with the rounds that `remove` has left. -/
inductive CancelPc (Co : Type*)
  | idle
  | isCancelled
  | setCancelled
  | status
  | empty
  | pause
  | takeAwaiter (foundBlockingAwaiter : Bool)
  | tryAwaiter (foundBlockingAwaiter : Bool)
  | removeCount (foundBlockingAwaiter : Bool)
  | removeDequeue (foundBlockingAwaiter : Bool) (left : ℕ)
  | removeCountDown (foundBlockingAwaiter : Bool) (left : ℕ) (node : Co)
  | removeEnqueue (foundBlockingAwaiter : Bool) (left : ℕ) (node : Co)
  | removeCountUp (foundBlockingAwaiter : Bool) (left : ℕ)
  | schedule (foundBlockingAwaiter : Bool)
  | checkPaused (foundBlockingAwaiter : Bool)
  | resume
  | returned
  deriving DecidableEq

/-- A coroutine with its awaiter, and the call that cancels it. -/
structure Waiter (Co : Type*) where
  kind : AwaiterKind
  status : CoroutineStatus
  cancelled : Bool
  /-- The awaiter is in `m_awaiters`. -/
  awaiterListed : Bool
  maybeBlocked : Bool
  wait : WaitPc
  resume : ResumePc
  cancel : CancelPc Co
  schedules : ℕ

structure State (Co : Type*) where
  co : Co → Waiter Co
  waitQueue : List Co
  /-- `m_count` of the wait list. -/
  count : UInt64

/-- `run` is the thread pool that takes up a scheduled coroutine, `cancel` the
call of `Coroutine::cancel`; the others are the next steps of the coroutine's
wait, of its resumption and of its cancellation. -/
inductive Action (Co : Type*)
  | wait (c : Co) (sameThreadPoolKind canDoChainedExecution : Bool)
  | run (c : Co)
  | resume (c : Co)
  | cancel (c : Co)
  | canceller (c : Co)

variable {Co : Type*} [DecidableEq Co]

def State.set (s : State Co) (c : Co) (w : Waiter Co) : State Co :=
  { s with co := Function.update s.co c w }

def Waiter.goOn (w : Waiter Co) : Waiter Co :=
  { w with wait := .notSuspended, resume := .removeAwaiter }

/-- `await_ready` and `await_suspend` of `AsyncCountDownEventAwaiter` and of
`BaseAsyncValueAwaiter`, which looks at the event once more. -/
def waitStep (s : State Co) (c : Co) (w : Waiter Co)
    (sameThreadPoolKind canDoChainedExecution : Bool) : WaitPc → Option (State Co)
  | .onReady => some (s.set c { w with awaiterListed := true, wait := .readyCancelled })
  | .readyCancelled =>
      let advice := w.kind.onReady sameThreadPoolKind canDoChainedExecution w.status false
        w.cancelled
      some (s.set c (if advice = .shouldNotSuspend then w.goOn
        else { w with wait := .suspendCancelled }))
  | .suspendCancelled => some (s.set c { w with wait := .suspend w.cancelled })
  | .suspend isCancelled =>
      let advice := w.kind.onSuspend sameThreadPoolKind canDoChainedExecution w.status false
        isCancelled
      (setStatus false w.status suspended).map fun newStatus =>
        s.set c (if advice = .shouldNotSuspend then { w.goOn with status := newStatus }
          else { w with
            status := newStatus
            wait := if w.kind = .value then .isSignaled else .setMaybeBlocked })
  | .isSignaled => some (s.set c { w with wait := .setMaybeBlocked })
  | .setMaybeBlocked => some (s.set c { w with maybeBlocked := true, wait := .enqueue })
  | .enqueue =>
      some { s.set c { w with wait := .countUp } with waitQueue := s.waitQueue ++ [c] }
  | .countUp => some { s.set c { w with wait := .setWaitListed } with count := s.count + 1 }
  | .setWaitListed => some (s.set c { w with maybeBlocked := true, wait := .suspended })
  | .suspended | .notSuspended => none

def resumeStep (s : State Co) (c : Co) (w : Waiter Co) : ResumePc → Option (State Co)
  | .removeAwaiter => some (s.set c { w with awaiterListed := false, resume := .setRunning })
  | .setRunning =>
      (setStatus false w.status running).map fun newStatus =>
        s.set c { w with
          status := newStatus
          resume := if w.status = pauseOnRunning then .spinPaused else .checkCancelled }
  | .spinPaused =>
      some (s.set c { w with
        resume := if w.status = paused then .spinPaused else .checkCancelled })
  | .checkCancelled => some (s.set c { w with resume := .resumed w.cancelled })
  | .idle | .resumed _ => none

/-- `Coroutine::cancel`, `cancel` of the awaiter, and `ConcurrentFifoList::remove`. -/
def cancelStep (s : State Co) (c : Co) (w : Waiter Co) : CancelPc Co → Option (State Co)
  | .isCancelled =>
      some (s.set c { w with cancel := if w.cancelled = true then .returned else .setCancelled })
  | .setCancelled => some (s.set c { w with cancelled := true, cancel := .status })
  | .status =>
      some (s.set c { w with cancel := if w.status = suspended then .empty else .returned })
  | .empty =>
      some (s.set c { w with cancel := if w.awaiterListed = true then .pause else .returned })
  | .pause =>
      (setStatus false w.status pauseOnRunning).map fun newStatus =>
        s.set c { w with
          status := newStatus
          cancel := if w.status = suspended then .takeAwaiter false else .returned }
  | .takeAwaiter found =>
      some (s.set c (if w.awaiterListed = true then
          { w with awaiterListed := false, cancel := .tryAwaiter found }
        else { w with cancel := .checkPaused found }))
  | .tryAwaiter found =>
      some (s.set c { w with
        cancel := if w.maybeBlocked = true then .removeCount found else .takeAwaiter found })
  | .removeCount found =>
      some (s.set c { w with cancel := .removeDequeue found (2 * s.count).toNat })
  | .removeDequeue found left =>
      some (match left, s.waitQueue with
        | left + 1, node :: rest =>
          { s.set c { w with cancel := .removeCountDown found left node } with
            waitQueue := rest }
        | _, _ => s.set c { w with cancel := .takeAwaiter true })
  | .removeCountDown found left node =>
      some { s.set c { w with
          cancel := if node = c then .schedule found else .removeEnqueue found left node } with
        count := s.count - 1 }
  | .removeEnqueue found left node =>
      some { s.set c { w with cancel := .removeCountUp found left } with
        waitQueue := s.waitQueue ++ [node] }
  | .removeCountUp found left =>
      some { s.set c { w with cancel := .removeDequeue found left } with count := s.count + 1 }
  | .schedule found =>
      some (s.set c { w with schedules := w.schedules + 1, cancel := .takeAwaiter found })
  | .checkPaused found =>
      some (s.set c { w with cancel :=
        if found = true ∧ w.status ≠ paused then .takeAwaiter false else .resume })
  | .resume =>
      (setStatus false w.status resumed).map fun newStatus =>
        s.set c { w with status := newStatus, cancel := .returned }
  | .idle | .returned => none

def step (s : State Co) : Action Co → Option (State Co)
  | .wait c sameThreadPoolKind canDoChainedExecution =>
      waitStep s c (s.co c) sameThreadPoolKind canDoChainedExecution (s.co c).wait
  | .run c =>
      if 0 < (s.co c).schedules ∧ (s.co c).resume = .idle then
        some (s.set c { s.co c with resume := .removeAwaiter })
      else none
  | .resume c => resumeStep s c (s.co c) (s.co c).resume
  | .cancel c =>
      if (s.co c).cancel = .idle then some (s.set c { s.co c with cancel := .isCancelled })
      else none
  | .canceller c => cancelStep s c (s.co c) (s.co c).cancel

/-- A coroutine that runs and is about to await the event. -/
def Waiter.awake (kind : AwaiterKind) : Waiter Co where
  kind := kind
  status := .running
  cancelled := false
  awaiterListed := false
  maybeBlocked := false
  wait := .onReady
  resume := .idle
  cancel := .idle
  schedules := 0

/-- A coroutine whose `await_suspend` has put it into the wait list. -/
def Waiter.parked (kind : AwaiterKind) : Waiter Co where
  kind := kind
  status := .suspended
  cancelled := false
  awaiterListed := true
  maybeBlocked := true
  wait := .suspended
  resume := .idle
  cancel := .idle
  schedules := 0

/-- The coroutines of `order` are parked, in this order; the others run. -/
def initial (order : List Co) (kind : Co → AwaiterKind) : State Co where
  co c := if c ∈ order then .parked (kind c) else .awake (kind c)
  waitQueue := order
  count := UInt64.ofNat order.length

def system (order : List Co) : StepSystem (State Co) (Action Co) where
  start s := ∃ kind, (∀ c, kind c = .event ∨ kind c = .value) ∧ s = initial order kind
  step := step

end LevelzAsync.EventWait
