import LevelzAsync.CoroutineStatus
import LevelzAsync.StepSystem

/-!
# One coroutine and the parties that change its status

The coroutine runs its own transitions; the holder of its handle cancels it and
drops the last handle; the consumer of a task or generator starts it; and the
completed-state task runs when the last child is done. One step is one access to
the status word or to the frame. What a body does, when the pool resumes it and
when its children finish is left open by the labels.
-/

namespace LevelzAsync.Lifecycle

open CoroutineStatus

/-- The next step of the coroutine itself. -/
inductive OwnPc
  | ready (kind : AwaiterKind)
  | suspendRead (kind : AwaiterKind)
  | suspend (kind : AwaiterKind) (isCancelled shouldCancelAbandoned : Bool)
  | parked (kind : AwaiterKind)
  | removeAwaiter (kind : AwaiterKind)
  | setRunning (kind : AwaiterKind)
  | spinPaused
  | body
  | setYielded
  | setReturned
  | countCheck
  | setCompleted
  | countDownLast
  | signalOwner
  | enqueueCompletedState
  | countDown
  | finalSuspended
  | destroying
  | destroyed
  deriving DecidableEq

/-- The completion step: done by the coroutine itself, or by a task that waits
for the last child. -/
inductive CompletionPc
  | none
  | enqueued
  | waiting
  | signalOwner
  | setCompleted
  | destroying
  | finished
  deriving DecidableEq

/-- The coroutine that awaits a task, between reading and replacing its status. -/
inductive ConsumerPc
  | idle
  | mark (expected : CoroutineStatus)
  | start
  deriving DecidableEq

/-- Who called `Coroutine::cancel`: a holder of the handle, `destroyOrAbandon`
before it abandons, or `destroyOrAbandon` after it found a suspended generator. -/
inductive Caller
  | holder
  | drop
  | abandonedYield
  deriving DecidableEq

inductive HolderPc
  | holding
  | cancelCheck (caller : Caller)
  | cancelMark (caller : Caller)
  | cancelStatus (caller : Caller)
  | cancelEmpty (caller : Caller)
  | pause (caller : Caller)
  | takeAwaiter (caller : Caller) (foundBlockingAwaiter : Bool)
  | tryAwaiter (caller : Caller) (foundBlockingAwaiter : Bool)
  | checkPaused (caller : Caller) (foundBlockingAwaiter : Bool)
  | resume (caller : Caller)
  | setOwner
  | unRef
  | dropStatus
  | dropShouldCancel
  | clearValue
  | abandon
  | yieldCount
  | clearContinuation
  | scheduleYielded
  | destroying
  | dropped
  deriving DecidableEq

/-- Nobody has begun to drop the last handle. -/
def HolderPc.holdsHandle : HolderPc → Bool
  | .holding | .cancelCheck .holder | .cancelMark .holder | .cancelStatus .holder
  | .cancelEmpty .holder | .pause .holder | .takeAwaiter .holder _ | .tryAwaiter .holder _
  | .checkPaused .holder _ | .resume .holder => true
  | _ => false

def Caller.return : Caller → HolderPc
  | .holder => .holding
  | .drop => .clearValue
  | .abandonedYield => .clearContinuation

structure State where
  kind : TaskKind
  status : CoroutineStatus
  cancelled : Bool
  cancelAbandoned : Bool
  /-- The awaiter of the current suspension is in `m_awaiters`. -/
  awaiterListed : Bool
  own : OwnPc
  completion : CompletionPc
  consumer : ConsumerPc
  holder : HolderPc
  /-- How often the frame was destroyed. -/
  destroyed : ℕ
  /-- `std::abort` was called: nothing runs any more. -/
  aborted : Bool
  deriving DecidableEq

inductive BodyStep
  | await (kind : AwaiterKind)
  | yield
  | finish

inductive Action
  /-- The body goes on to its next await, yield or end. -/
  | body (b : BodyStep)
  /-- The next step of the coroutine in the thread that runs it; `settled` says
  that what it awaits is there, `lastUnit` that its completion count is one. -/
  | own (sameThreadPoolKind canDoChainedExecution settled lastUnit : Bool)
  /-- An event, value, mutex, task or pool resumes the parked coroutine. -/
  | schedule
  /-- The last child is done, or the completed-state task goes on. -/
  | completion
  | await
  | consumer
  | setCancelAbandoned (b : Bool)
  | cancel
  | drop
  | holder (maybeBlocked cancelled lastUnit : Bool)

namespace State

/-- `setStatus(status, isFinalAwaiter)`, then what the caller does with the
status that was found. -/
def setStatus (s : State) (isFinalAwaiter : Bool) (status : CoroutineStatus)
    (next : CoroutineStatus → State → State) : State :=
  match CoroutineStatus.setStatus isFinalAwaiter s.status status with
  | some newStatus => next s.status { s with status := newStatus }
  | none => { s with aborted := true }

theorem setStatus_eq {s : State} {isFinalAwaiter : Bool} {status new : CoroutineStatus}
    (h : CoroutineStatus.setStatus isFinalAwaiter s.status status = some new)
    (next : CoroutineStatus → State → State) :
    s.setStatus isFinalAwaiter status next = next s.status { s with status := new } := by
  rw [State.setStatus, h]

def destroy (s : State) : State := { s with destroyed := s.destroyed + 1 }

end State

def bodyStep (s : State) : BodyStep → Option State
  | .await kind =>
      -- `await_transform` throws into the body when the coroutine is cancelled
      if kind.isBlocking = true then
        some (if s.cancelled = true then s else { s with own := .ready kind })
      else none
  | .yield => if s.kind = .task then some { s with own := .setYielded } else none
  | .finish => some { s with own := .setReturned }

def ownStep (s : State) (sameThreadPoolKind canDoChainedExecution settled lastUnit : Bool) :
    OwnPc → Option State
  | .ready kind =>
      let advice := kind.onReady sameThreadPoolKind canDoChainedExecution s.status
        s.cancelAbandoned s.cancelled
      some { s with
        awaiterListed := s.awaiterListed || kind.isRegistered
        own :=
          if kind = .final then
            if advice = .shouldNotSuspend then .destroying else .suspendRead .final
          else if kind ≠ .initial ∧ advice = .shouldNotSuspend ∨
              kind.isBlocking = true ∧ settled = true then
            .removeAwaiter kind
          else .suspendRead kind }
  | .suspendRead kind => some { s with own := .suspend kind s.cancelled s.cancelAbandoned }
  | .suspend kind isCancelled shouldCancelAbandoned =>
      some (s.setStatus (kind = .final) .suspended fun prevStatus s =>
        let advice := kind.onSuspend sameThreadPoolKind canDoChainedExecution prevStatus
          shouldCancelAbandoned isCancelled
        { s with own :=
            if kind = .final then
              if advice = .shouldNotSuspend then .destroying else .finalSuspended
            else if advice = .shouldNotSuspend then .removeAwaiter kind
            else .parked kind })
  | .removeAwaiter kind =>
      some { s with
        awaiterListed := s.awaiterListed && !kind.isRegistered
        own := .setRunning kind }
  | .setRunning _ =>
      -- `onResume` then throws `CancellationError` or returns: the body goes on
      some (s.setStatus false .running fun prevStatus s =>
        { s with own := if prevStatus = .pauseOnRunning then .spinPaused else .body })
  | .spinPaused => some { s with own := if s.status = .paused then .spinPaused else .body }
  | .setYielded => some (s.setStatus false .yielded fun _ s => { s with own := .ready .yield })
  | .setReturned => some (s.setStatus false .returned fun _ s => { s with own := .countCheck })
  | .countCheck =>
      some { s with own := if lastUnit = true then .setCompleted else .enqueueCompletedState }
  | .setCompleted =>
      some (s.setStatus false .completed fun _ s =>
        { s with own := .countDownLast, completion := .finished })
  | .countDownLast => some { s with own := .signalOwner }
  | .signalOwner => some { s with own := .ready .final }
  | .enqueueCompletedState => some { s with own := .countDown, completion := .enqueued }
  | .countDown => some { s with own := .ready .final, completion := .waiting }
  | .destroying => some { s.destroy with own := .destroyed }
  | _ => none

def completionStep (s : State) : CompletionPc → Option State
  | .waiting => some { s with completion := .signalOwner }
  | .signalOwner => some { s with completion := .setCompleted }
  | .setCompleted =>
      some (s.setStatus false .completed fun currentStatus s =>
        { s with completion :=
            if currentStatus = .abandonedFinalSuspended then .destroying else .finished })
  | .destroying => some { s.destroy with completion := .finished }
  | _ => none

/-- `TaskAwaiterBase::await_suspend` of the consumer. -/
def consumerStep (s : State) : ConsumerPc → Option State
  | .mark expected =>
      some (if s.status = expected then { s with status := .suspended, consumer := .start }
        else { s with status := .suspended, aborted := true })
  | .start =>
      match s.own with
      | .parked kind => some { s with own := .removeAwaiter kind, consumer := .idle }
      | _ => none
  | .idle => none

/-- `Coroutine::cancel` and `BaseTask::destroyOrAbandon`. -/
def holderStep (s : State) (maybeBlocked cancelled lastUnit : Bool) : HolderPc → Option State
  | .cancelCheck caller =>
      some { s with holder := if s.cancelled = true then caller.return else .cancelMark caller }
  | .cancelMark caller => some { s with cancelled := true, holder := .cancelStatus caller }
  | .cancelStatus caller =>
      some { s with holder := if s.status = .suspended then .cancelEmpty caller else caller.return }
  | .cancelEmpty caller =>
      some { s with holder := if s.awaiterListed = true then .pause caller else caller.return }
  | .pause caller =>
      some (s.setStatus false .pauseOnRunning fun prevStatus s =>
        { s with holder :=
            if prevStatus = .suspended then .takeAwaiter caller false else caller.return })
  | .takeAwaiter caller found =>
      some (if s.awaiterListed = true then
          { s with awaiterListed := false, holder := .tryAwaiter caller found }
        else { s with holder := .checkPaused caller found })
  | .tryAwaiter caller found =>
      some { s with holder := .takeAwaiter caller (found || maybeBlocked && !cancelled) }
  | .checkPaused caller found =>
      some { s with holder :=
        if found = true ∧ s.status ≠ .paused then .takeAwaiter caller false else .resume caller }
  | .resume caller =>
      some (s.setStatus false .resumed fun _ s => { s with holder := caller.return })
  | .setOwner => some { s with holder := .unRef }
  | .unRef => some { s with holder := .dropStatus }
  | .dropStatus =>
      some { s with holder :=
        if s.status = .completedFinalSuspended then .destroying else .dropShouldCancel }
  | .dropShouldCancel =>
      some { s with holder := if s.cancelAbandoned = true then .cancelCheck .drop else .abandon }
  | .clearValue => some { s with holder := .abandon }
  | .abandon =>
      some (s.setStatus false .abandoned fun lastStatus s =>
        { s with holder :=
            if lastStatus = .completedFinalSuspended then .destroying
            else if s.kind = .task ∧ lastStatus = .notStarted then .destroying
            else if lastStatus = .yieldedSuspended then .yieldCount
            else .dropped })
  | .yieldCount =>
      some { s with holder :=
        if lastUnit = true then .destroying else .cancelCheck .abandonedYield }
  | .clearContinuation => some { s with holder := .scheduleYielded }
  | .scheduleYielded =>
      -- resuming a coroutine that is not parked has no defined behaviour
      some { s with
        holder := .dropped
        own := if s.own = .parked .yield then .removeAwaiter .yield else s.own }
  | .destroying => some { s.destroy with holder := .dropped }
  | _ => none

def step (s : State) (a : Action) : Option State :=
  if s.aborted = true then none
  else match a with
    | .body b => if s.own = .body then bodyStep s b else none
    | .own sameThreadPoolKind canDoChainedExecution settled lastUnit =>
        ownStep s sameThreadPoolKind canDoChainedExecution settled lastUnit s.own
    | .schedule =>
        match s.own with
        | .parked kind =>
            if kind.isRegistered = true then some { s with own := .removeAwaiter kind } else none
        | _ => none
    | .completion => completionStep s s.completion
    | .await =>
        -- the consumer awaits through a handle of its own
        if s.consumer = .idle ∧ s.holder.holdsHandle = true ∧
            (s.own = .parked .initial ∧ s.status = .notStarted ∨
              s.own = .parked .yield ∧ s.status = .yieldedSuspended) then
          some { s with consumer := .mark s.status }
        else none
    | .consumer => consumerStep s s.consumer
    | .setCancelAbandoned b =>
        if s.holder.holdsHandle = true then some { s with cancelAbandoned := b } else none
    | .cancel =>
        if s.holder = .holding then some { s with holder := .cancelCheck .holder } else none
    | .drop =>
        if s.holder = .holding ∧ s.consumer = .idle then some { s with holder := .setOwner }
        else none
    | .holder maybeBlocked cancelled lastUnit =>
        holderStep s maybeBlocked cancelled lastUnit s.holder

/-- A created coroutine before its initial suspension: a task suspends until it
is awaited, the other kinds are scheduled on their pool. -/
def initial (kind : TaskKind) (cancelAbandoned : Bool) : State where
  kind := kind
  status := .notStarted
  cancelled := false
  cancelAbandoned := cancelAbandoned
  awaiterListed := false
  own := .ready (if kind = .task then .initial else .threadPool)
  completion := .none
  consumer := .idle
  holder := .holding
  destroyed := 0
  aborted := false

def system : StepSystem State Action where
  start s := ∃ kind cancelAbandoned, kind ≠ .simple ∧ s = initial kind cancelAbandoned
  step := step

end LevelzAsync.Lifecycle
