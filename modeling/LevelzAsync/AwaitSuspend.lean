import LevelzAsync.CoroutineStatus
import LevelzAsync.StepSystem
import Mathlib.Logic.Function.Basic

/-!
# What `await_suspend` does after it has published the coroutine

A coroutine awaits one thing after another: an `AsyncCountDownEvent`, an
`AsyncValue`, an `AsyncBarrier` or a task. Its awaits are numbered. The wait
lists are the atomic queues that `ConcurrentFifoList` was shown to be; the
coroutine is in one of them or in the `m_continuation` of the awaited task, which
runs to its final suspension, and whoever takes it out schedules it or puts it
back. What the counters of an object and the nodes of other coroutines make of a
test is left to the label of the step. No more coroutines than `m_capacity` use
a barrier, no thread pool shuts down, and a step that aborts the program is no step.
-/

namespace LevelzAsync.AwaitSuspend

inductive Kind
  | event
  | value
  | barrier
  | task
  deriving DecidableEq

/-- The next step of `await_suspend` and of the `enqueue` or `arriveAndWait` in it. -/
inductive SuspendPc
  | onSuspend
  | isSignaled
  | setMaybeBlocked
  | isZero
  | push
  | isZeroAgain
  | resumeDequeue
  | resumeIsZero
  | isCanceled
  | arriveIsCanceled
  | arrivePush
  | isCanceledAgain
  | drainDequeue
  | drainSchedule
  | arrive
  | releaseDequeue
  | setWaitListed (waitListed : Bool)
  | schedule
  | taskStatus
  | storeContinuation
  | setTaskMaybeBlocked
  | taskThreadPoolKind
  | taskSchedule
  | taskHandle
  deriving DecidableEq

/-- The step reads or writes the awaiter or the coroutine, whatever the objects hold; the
`dequeue` in a loop does if it returns the coroutine, which `found` says. -/
def SuspendPc.touches (found : Bool) : SuspendPc → Bool
  | isZeroAgain | isCanceledAgain | arrive => false
  | resumeDequeue | drainDequeue => found
  | _ => true

/-- The thread has not given the coroutine away, or has taken it out again. -/
def SuspendPc.holds : SuspendPc → Bool
  | isZeroAgain | resumeDequeue | isCanceledAgain | drainDequeue | arrive | releaseDequeue
  | setTaskMaybeBlocked | taskThreadPoolKind | taskSchedule | taskHandle => false
  | setWaitListed waitListed => !waitListed
  | _ => true

/-- The first step after `onSuspend`. -/
def Kind.afterOnSuspend : Kind → SuspendPc
  | event | barrier => .setMaybeBlocked
  | value => .isSignaled
  | task => .taskStatus

/-- What a thread has to do with the coroutine; `n` is the number of the await. -/
inductive Call
  | idle
  | body
  | suspend (n : ℕ) (mustSuspend : Bool) (pc : SuspendPc)
  | awaitResume (n : ℕ)
  | onResume (n : ℕ)
  /-- `resumeWaiting` of a signal, or the `remove` for another coroutine, has dequeued it. -/
  | signal (kind : Kind)
  /-- The awaited task has completed and has taken it out of `m_continuation`. -/
  | complete
  /-- `Coroutine::cancel` has found the awaiter blocked. -/
  | cancel (n : ℕ)
  | schedule
  deriving DecidableEq

def Call.suspends (n : ℕ) : Call → Bool
  | suspend k _ _ => k = n
  | _ => false

/-- The thread is inside `await_suspend` of the await and has given the coroutine away. -/
def Call.exposes (n : ℕ) : Call → Bool
  | suspend k _ pc => k = n && !pc.holds
  | _ => false

def Call.holds : Call → Bool
  | idle | cancel _ => false
  | suspend _ _ pc => pc.holds
  | _ => true

/-- The thread is inside `await_suspend` or `await_resume` of the await. -/
def Call.awaits (n : ℕ) : Call → Bool
  | suspend k _ _ | awaitResume k | onResume k => k = n
  | _ => false

structure State (Thread : Type*) where
  /-- How many awaits have begun. -/
  number : ℕ
  kind : ℕ → Kind
  /-- `m_maybeBlocked` of the awaiter. -/
  maybeBlocked : ℕ → Bool
  /-- The awaited task has been scheduled or resumed. -/
  launched : ℕ → Bool
  /-- Its node was put into a wait list, or its continuation is set and `m_maybeBlocked` is
  true. -/
  published : ℕ → Bool
  /-- What kind of wait list, or continuation, the coroutine is in. -/
  listed : Option Kind
  /-- How often it is in the queues of the thread pool. -/
  queued : ℕ
  call : Thread → Call
  /-- The thread has taken the coroutine past the await. -/
  passed : ℕ → Thread → Bool

/-- `found` is the answer of the test that the step makes, or says that a `dequeue`
returns the coroutine. -/
inductive Action (Thread : Type*)
  | await (t : Thread) (kind : Kind)
  | call (t : Thread) (advice : SuspensionAdvice) (found : Bool)
  | signal (t : Thread)
  /-- `arriveAndRelease` of another participant, or the cancellation of the barrier. -/
  | release (t : Thread)
  | complete (t : Thread)
  | cancel (t : Thread)
  | resume (t : Thread)
  /-- `await_resume` returns or throws. -/
  | pass (t : Thread)
  | finish (t : Thread)

variable {Thread : Type*} [DecidableEq Thread]

def State.go (s : State Thread) (t : Thread) (c : Call) : State Thread :=
  { s with call := Function.update s.call t c }

def State.next (s : State Thread) (t : Thread) (n : ℕ) (mustSuspend : Bool) (pc : SuspendPc) :
    State Thread :=
  s.go t (.suspend n mustSuspend pc)

/-- What `await_suspend` does with its result: a coroutine that shall not stay suspended
is scheduled, or the thread goes on with it. -/
def State.conclude (s : State Thread) (t : Thread) (n : ℕ) (mustSuspend waitListed : Bool) :
    State Thread :=
  s.go t (if waitListed = true then .idle
    else if mustSuspend = true then .suspend n mustSuspend .schedule
    else .awaitResume n)

/-- The dequeue of a loop inside `await_suspend`, which returns the coroutine or ends the loop. -/
def State.dequeue (s : State Thread) (t : Thread) (n : ℕ) (mustSuspend found : Bool)
    (taken ended : SuspendPc) : Option (State Thread) :=
  if found = false then some (s.next t n mustSuspend ended)
  else if s.listed = some (s.kind n) then
    some { s.next t n mustSuspend taken with listed := none }
  else none

def suspendStep (s : State Thread) (t : Thread) (n : ℕ) (mustSuspend : Bool)
    (advice : SuspensionAdvice) (found : Bool) : SuspendPc → Option (State Thread)
  | .onSuspend =>
      some (s.go t (if advice = .shouldNotSuspend then .awaitResume n
        else .suspend n (advice = .shouldSuspend) (s.kind n).afterOnSuspend))
  | .isSignaled =>
      some (if found = true then s.conclude t n mustSuspend false
        else s.next t n mustSuspend .setMaybeBlocked)
  | .setMaybeBlocked =>
      some { s.next t n mustSuspend (if s.kind n = .barrier then .isCanceled else .isZero) with
        maybeBlocked := Function.update s.maybeBlocked n true }
  | .isZero =>
      some (s.next t n mustSuspend (if found = true then .setWaitListed false else .push))
  | .push =>
      some { s.next t n mustSuspend .isZeroAgain with
        listed := some (s.kind n)
        published := Function.update s.published n true }
  | .isZeroAgain =>
      some (s.next t n mustSuspend (if found = true then .resumeDequeue else .setWaitListed true))
  | .resumeDequeue => s.dequeue t n mustSuspend found .resumeIsZero (.setWaitListed true)
  | .resumeIsZero =>
      some (if found = true then
          { s.next t n mustSuspend .resumeDequeue with queued := s.queued + 1 }
        else { s.next t n mustSuspend .resumeDequeue with listed := some (s.kind n) })
  | .isCanceled =>
      some (s.next t n mustSuspend
        (if found = true then .setWaitListed false else .arriveIsCanceled))
  | .arriveIsCanceled =>
      some (s.next t n mustSuspend (if found = true then .setWaitListed false else .arrivePush))
  | .arrivePush =>
      some { s.next t n mustSuspend .isCanceledAgain with
        listed := some .barrier
        published := Function.update s.published n true }
  | .isCanceledAgain =>
      some (s.next t n mustSuspend (if found = true then .drainDequeue else .arrive))
  | .drainDequeue => s.dequeue t n mustSuspend found .drainSchedule (.setWaitListed true)
  | .drainSchedule =>
      some { s.next t n mustSuspend .drainDequeue with queued := s.queued + 1 }
  | .arrive =>
      some (s.next t n mustSuspend (if found = true then .releaseDequeue else .setWaitListed true))
  -- without the node of its own, `arriveAndRelease` would run out of nodes
  | .releaseDequeue =>
      if s.listed = some .barrier then
        some { s.next t n mustSuspend (.setWaitListed false) with listed := none }
      else none
  | .setWaitListed waitListed =>
      some { s.conclude t n mustSuspend waitListed with
        maybeBlocked := Function.update s.maybeBlocked n waitListed }
  | .schedule => some { s.go t .idle with queued := s.queued + 1 }
  | .taskStatus =>
      some (if found = true then s.go t (.awaitResume n)
        else s.next t n mustSuspend .storeContinuation)
  | .storeContinuation =>
      some { s.next t n mustSuspend .setTaskMaybeBlocked with listed := some .task }
  | .setTaskMaybeBlocked =>
      some { s.next t n mustSuspend
          (if mustSuspend = true then .taskSchedule else .taskThreadPoolKind) with
        maybeBlocked := Function.update s.maybeBlocked n true
        published := Function.update s.published n true }
  | .taskThreadPoolKind =>
      some (s.next t n mustSuspend (if found = true then .taskHandle else .taskSchedule))
  | .taskSchedule | .taskHandle =>
      some { s.go t .idle with launched := Function.update s.launched n true }

def callStep (s : State Thread) (t : Thread) (advice : SuspensionAdvice) (found : Bool) :
    Call → Option (State Thread)
  | .suspend n mustSuspend pc => suspendStep s t n mustSuspend advice found pc
  | .awaitResume n =>
      some { s.go t (.onResume n) with
        listed := if s.kind n = .task ∧ s.listed = some .task then none else s.listed }
  | .signal kind =>
      some (if found = true then s.go t .schedule
        else { s.go t .idle with listed := some kind })
  | .complete => some (s.go t (if found = true then .awaitResume s.number else .schedule))
  | .cancel n =>
      -- `remove` does nothing if the event is set or the coroutine is not in the list
      some (if n = s.number ∧ (s.listed = some .task ∨ found = true ∧ s.listed ≠ none) then
          { s.go t .schedule with listed := none }
        else s.go t .idle)
  | .schedule => some { s.go t .idle with queued := s.queued + 1 }
  | .idle | .body | .onResume _ => none

def step (s : State Thread) : Action Thread → Option (State Thread)
  | .await t kind =>
      if s.call t = .body then
        some { s.go t (.suspend (s.number + 1) false .onSuspend) with
          number := s.number + 1
          kind := Function.update s.kind (s.number + 1) kind }
      else none
  | .call t advice found => callStep s t advice found (s.call t)
  | .signal t =>
      match s.call t, s.listed with
      | .idle, some .event => some { s.go t (.signal .event) with listed := none }
      | .idle, some .value => some { s.go t (.signal .value) with listed := none }
      | _, _ => none
  | .release t =>
      if s.call t = .idle ∧ s.listed = some .barrier then
        some { s.go t .schedule with listed := none }
      else none
  | .complete t =>
      if s.call t = .idle ∧ s.listed = some .task ∧ s.launched s.number = true then
        some { s.go t .complete with listed := none }
      else none
  | .cancel t =>
      if s.call t = .idle ∧ s.maybeBlocked s.number = true then some (s.go t (.cancel s.number))
      else none
  | .resume t =>
      if s.call t = .idle ∧ 0 < s.queued then
        some { s.go t (.awaitResume s.number) with queued := s.queued - 1 }
      else none
  | .pass t =>
      match s.call t with
      | .onResume n =>
          some { s.go t .body with
            passed := Function.update s.passed n (Function.update (s.passed n) t true) }
      | _ => none
  | .finish t => if s.call t = .body then some (s.go t .idle) else none

def initial (t : Thread) : State Thread where
  number := 0
  kind _ := .event
  maybeBlocked _ := false
  launched _ := false
  published _ := false
  listed := none
  queued := 0
  call := Function.update (fun _ => .idle) t .body
  passed _ _ := false

def system (Thread : Type*) [DecidableEq Thread] : StepSystem (State Thread) (Action Thread) where
  start s := ∃ t, s = initial t
  step := step

/-- The step of the thread with the answer `found` reads or writes the awaiter or the
coroutine inside `await_suspend` of the await. -/
def State.touches (s : State Thread) (t : Thread) (n : ℕ) (found : Bool) : Bool :=
  match s.call t with
  | .suspend k _ pc => k = n && pc.touches found
  | _ => false

/-- No thread makes a step that touches the awaiter or the coroutine for an await that has
published it and past which another thread has taken it. -/
def State.Untouched (s : State Thread) : Prop :=
  ∀ t u n advice found s', step s (.call t advice found) = some s' →
    s.touches t n found = true → s.published n = true → s.passed n u = true → u = t

/-- The thread that has given the coroutine away in the await that `u` is about to pass
has returned from its `await_suspend`. -/
def State.HasReturned (s : State Thread) (u : Thread) : Call → Prop
  | .onResume n => ∀ t, t ≠ u → (s.call t).exposes n = false
  | _ => True

/-- No thread takes the coroutine past an await while the thread that has given it away is
still inside `await_suspend`. -/
def Returned (s : State Thread) : Action Thread → Prop
  | .pass u => s.HasReturned u (s.call u)
  | _ => True

end LevelzAsync.AwaitSuspend
