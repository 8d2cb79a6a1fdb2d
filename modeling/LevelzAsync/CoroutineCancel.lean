import LevelzAsync.CoroutineStatus
import LevelzAsync.StepSystem
import Mathlib.Logic.Function.Basic

/-!
# Cancelling a coroutine that awaits

A coroutine awaits events, values, mutexes, barriers and tasks one after the other
while threads call `Coroutine::cancel`; it is not abandoned. What it awaits holds
its node or its continuation until somebody takes it out and schedules the
coroutine, and the labels leave open when that happens. `m_awaiters` is the atomic
queue that `ConcurrentFifoList` was shown to be, with its `m_count` updated in a
step of its own.
-/

namespace LevelzAsync.CoroutineCancel

open CoroutineStatus

/-- The awaiter of the coroutine's await with that number. -/
structure Awaiter where
  number : ℕ
  kind : AwaiterKind
  deriving DecidableEq

/-- The next step of the coroutine itself. -/
inductive OwnPc
  | body
  | addAwaiter
  | addCount
  | ready
  | suspendRead
  | suspend (isCancelled : Bool)
  | register (shouldSuspend : Bool)
  | parked
  | removeCount
  | removeDequeue (left : ℕ)
  | removeListCount (node : Awaiter) (left : ℕ)
  | removeEnqueue (node : Awaiter) (left : ℕ)
  | removeEnqueueCount (left : ℕ)
  | setRunning
  | spinPaused
  | setReturned
  | setCompleted
  | finalSuspend
  | finalSuspended
  deriving DecidableEq

/-- The next step of a thread inside `Coroutine::cancel`. -/
inductive CancelPc
  | idle
  | check
  | mark
  | status
  | isEmpty
  | pause
  | dequeue (foundBlockingAwaiter : Bool)
  | listCount (awaiter : Awaiter) (foundBlockingAwaiter : Bool)
  | maybeBlocked (awaiter : Awaiter) (foundBlockingAwaiter : Bool)
  | cancelAwaiter (awaiter : Awaiter) (foundBlockingAwaiter : Bool)
  | schedule (foundBlockingAwaiter : Bool)
  | checkPaused (foundBlockingAwaiter : Bool)
  | resume
  | returned
  deriving DecidableEq

structure State (Canceller : Type*) where
  status : CoroutineStatus
  cancelled : Bool
  /-- The awaiter of the current or of the last await. -/
  awaiter : Awaiter
  /-- `m_awaiters`. -/
  awaiters : List Awaiter
  /-- `m_count` of `m_awaiters`. -/
  awaitersCount : ℕ
  own : OwnPc
  /-- What the coroutine awaits holds its node or its continuation. -/
  waiting : Bool
  /-- How often the coroutine is in the queue of its pool. -/
  queued : ℕ
  /-- How often it was scheduled. -/
  schedules : ℕ
  canceller : Canceller → CancelPc
  /-- How many calls of `cancel` have changed `Suspended` into `PauseOnRunning`. -/
  pauses : ℕ
  /-- `std::abort` was called: nothing runs any more. -/
  aborted : Bool

inductive Action (Canceller : Type*)
  | await (kind : AwaiterKind)
  | finish
  /-- The next step of the coroutine; `settled` says that what it awaits is there. -/
  | own (sameThreadPoolKind canDoChainedExecution settled : Bool)
  /-- What the coroutine awaits lets it go, and has perhaps marked it cancelled. -/
  | source (cancels : Bool)
  /-- A worker takes the coroutine out of the queue of its pool. -/
  | resume
  | cancel (i : Canceller)
  /-- The next step of a canceller; `takes` says that the cancellation of the
  awaiter finds the node or the continuation of the coroutine. -/
  | canceller (i : Canceller) (maybeBlocked takes : Bool)

namespace State

variable {Canceller : Type*}

def setStatus (s : State Canceller) (isFinalAwaiter : Bool) (status : CoroutineStatus)
    (next : CoroutineStatus → State Canceller → State Canceller) : State Canceller :=
  match CoroutineStatus.setStatus isFinalAwaiter s.status status with
  | some newStatus => next s.status { s with status := newStatus }
  | none => { s with aborted := true }

theorem setStatus_eq {s : State Canceller} {isFinalAwaiter : Bool} {status new : CoroutineStatus}
    (h : CoroutineStatus.setStatus isFinalAwaiter s.status status = some new)
    (next : CoroutineStatus → State Canceller → State Canceller) :
    s.setStatus isFinalAwaiter status next = next s.status { s with status := new } := by
  rw [State.setStatus, h]

def schedule (s : State Canceller) : State Canceller :=
  { s with queued := s.queued + 1, schedules := s.schedules + 1 }

end State

variable {Canceller : Type*}

def ownStep (s : State Canceller) (sameThreadPoolKind canDoChainedExecution settled : Bool) :
    OwnPc → Option (State Canceller)
  | .addAwaiter => some { s with awaiters := s.awaiters ++ [s.awaiter], own := .addCount }
  | .addCount => some { s with awaitersCount := s.awaitersCount + 1, own := .ready }
  | .ready =>
      let advice := s.awaiter.kind.onReady sameThreadPoolKind canDoChainedExecution s.status
        false s.cancelled
      some { s with own :=
        if advice = .shouldNotSuspend ∨ settled = true then .removeCount else .suspendRead }
  | .suspendRead => some { s with own := .suspend s.cancelled }
  | .suspend isCancelled =>
      some (s.setStatus false .suspended fun prevStatus s =>
        let advice := s.awaiter.kind.onSuspend sameThreadPoolKind canDoChainedExecution prevStatus
          false isCancelled
        { s with own := if advice = .shouldNotSuspend then .removeCount
          else .register (advice = .shouldSuspend) })
  | .register shouldSuspend =>
      -- the awaited thing may have come in the meantime: then nothing holds the coroutine
      some (if settled = false then { s with waiting := true, own := .parked }
        else if shouldSuspend = true then { s.schedule with own := .parked }
        else { s with own := .removeCount })
  | .removeCount => some { s with own := .removeDequeue (2 * s.awaitersCount) }
  | .removeDequeue left =>
      some (match left, s.awaiters with
        | left + 1, node :: rest =>
          { s with awaiters := rest, own := .removeListCount node left }
        | _, _ => { s with own := .setRunning })
  | .removeListCount node left =>
      some { s with
        awaitersCount := s.awaitersCount - 1
        own := if node = s.awaiter then .setRunning else .removeEnqueue node left }
  | .removeEnqueue node left =>
      some { s with awaiters := s.awaiters ++ [node], own := .removeEnqueueCount left }
  | .removeEnqueueCount left =>
      some { s with awaitersCount := s.awaitersCount + 1, own := .removeDequeue left }
  | .setRunning =>
      some (s.setStatus false .running fun prevStatus s =>
        { s with own := if prevStatus = .pauseOnRunning then .spinPaused else .body })
  | .spinPaused => some { s with own := if s.status = .paused then .spinPaused else .body }
  | .setReturned => some (s.setStatus false .returned fun _ s => { s with own := .setCompleted })
  | .setCompleted => some (s.setStatus false .completed fun _ s => { s with own := .finalSuspend })
  | .finalSuspend => some (s.setStatus true .suspended fun _ s => { s with own := .finalSuspended })
  | .body | .parked | .finalSuspended => none

section

variable [DecidableEq Canceller]

def State.goCanceller (s : State Canceller) (i : Canceller) (q : CancelPc) : State Canceller :=
  { s with canceller := Function.update s.canceller i q }

/-- `Coroutine::cancel`, with `Awaiter::cancel` of the awaiters that it finds. -/
def cancelStep (s : State Canceller) (i : Canceller) (maybeBlocked takes : Bool) :
    CancelPc → Option (State Canceller)
  | .check => some (s.goCanceller i (if s.cancelled = true then .returned else .mark))
  | .mark => some { s.goCanceller i .status with cancelled := true }
  | .status => some (s.goCanceller i (if s.status = .suspended then .isEmpty else .returned))
  | .isEmpty => some (s.goCanceller i (if s.awaiters = [] then .returned else .pause))
  | .pause =>
      some (s.setStatus false .pauseOnRunning fun prevStatus s =>
        if prevStatus = .suspended then
          { s.goCanceller i (.dequeue false) with pauses := s.pauses + 1 }
        else s.goCanceller i .returned)
  | .dequeue found =>
      some (match s.awaiters with
        | [] => s.goCanceller i (.checkPaused found)
        | awaiter :: rest => { s.goCanceller i (.listCount awaiter found) with awaiters := rest })
  | .listCount awaiter found =>
      some { s.goCanceller i (.maybeBlocked awaiter found) with
        awaitersCount := s.awaitersCount - 1 }
  | .maybeBlocked awaiter found =>
      some (s.goCanceller i
        (if maybeBlocked = true then .cancelAwaiter awaiter found else .dequeue found))
  | .cancelAwaiter awaiter found =>
      -- the exchange of a continuation finds it; a search of a wait list may miss a node
      -- that another thread has in its hand; the barrier answers true in any case
      if takes = true then
        if s.waiting = true then some { s.goCanceller i (.schedule found) with waiting := false }
        else none
      else if awaiter.kind = .task ∧ s.waiting = true then none
      else some (s.goCanceller i (.dequeue (found || awaiter.kind ≠ .barrier)))
  | .schedule found => some (s.schedule.goCanceller i (.dequeue found))
  | .checkPaused found =>
      some (s.goCanceller i
        (if found = true ∧ s.status ≠ .paused then .dequeue false else .resume))
  | .resume => some (s.setStatus false .resumed fun _ s => s.goCanceller i .returned)
  | .idle | .returned => none

def step (s : State Canceller) (a : Action Canceller) : Option (State Canceller) :=
  if s.aborted = true then none
  else match a with
    | .await kind =>
        -- `await_transform` throws into the body when the coroutine is cancelled
        if s.own = .body ∧ kind.isBlocking = true then
          some (if s.cancelled = true then s
            else { s with awaiter := ⟨s.awaiter.number + 1, kind⟩, own := .addAwaiter })
        else none
    | .finish => if s.own = .body then some { s with own := .setReturned } else none
    | .own sameThreadPoolKind canDoChainedExecution settled =>
        ownStep s sameThreadPoolKind canDoChainedExecution settled s.own
    | .source cancels =>
        if s.waiting = true then
          some { s.schedule with waiting := false, cancelled := s.cancelled || cancels }
        else none
    | .resume =>
        if s.own = .parked ∧ 0 < s.queued then
          some { s with queued := s.queued - 1, own := .removeCount }
        else none
    | .cancel i => if s.canceller i = .idle then some (s.goCanceller i .check) else none
    | .canceller i maybeBlocked takes => cancelStep s i maybeBlocked takes (s.canceller i)

end

/-- The body runs and has not awaited anything. -/
def initial : State Canceller where
  status := .running
  cancelled := false
  awaiter := ⟨0, .event⟩
  awaiters := []
  awaitersCount := 0
  own := .body
  waiting := false
  queued := 0
  schedules := 0
  canceller _ := .idle
  pauses := 0
  aborted := false

def system (Canceller : Type*) [DecidableEq Canceller] :
    StepSystem (State Canceller) (Action Canceller) where
  start s := s = initial
  step := step

/-- The coroutine is suspended, and what it awaits holds it. -/
def suspendedOn (kind : AwaiterKind) : State Canceller where
  status := .suspended
  cancelled := false
  awaiter := ⟨1, kind⟩
  awaiters := [⟨1, kind⟩]
  awaitersCount := 1
  own := .parked
  waiting := true
  queued := 0
  schedules := 0
  canceller _ := .idle
  pauses := 0
  aborted := false

/-- Only calls of `cancel` make the suspended coroutine go on. -/
def cancelSystem (Canceller : Type*) [DecidableEq Canceller] :
    StepSystem (State Canceller) (Action Canceller) where
  start s := ∃ kind, kind.isBlocking = true ∧ s = suspendedOn kind
  step s a := match a with
    | .source _ => none
    | a => step s a

end LevelzAsync.CoroutineCancel
