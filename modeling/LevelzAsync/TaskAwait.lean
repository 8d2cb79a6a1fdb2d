import LevelzAsync.CoroutineStatus
import LevelzAsync.StepSystem

/-!
# A coroutine that awaits a task

The consumer suspends in `TaskAwaiterBase::await_suspend`, the task runs to its
next `co_yield` or to its final suspension, and a thread cancels the consumer.
`m_continuation` is null or the consumer; whoever takes it resumes the consumer
in a later step. One step is one access to a status, to `m_continuation` or to
the consumer's list of awaiters. The consumer keeps its handle of the task; what
the task's body awaits is left open by the labels. So is the allowance that a call
of `onReady` or `onSuspend` finds on its thread; the state remembers it up to the
`recordChainedExecution` of the coroutine that goes on.
-/

namespace LevelzAsync.TaskAwait

open CoroutineStatus

/-- The next step of the consumer in `TaskAwaiter`. -/
inductive ConsumerPc
  | body
  | ready
  | readyDone
  | suspendRead
  | suspend (isCancelled : Bool)
  | taskStatus
  | taskDone
  | markTask (expected : CoroutineStatus)
  | storeContinuation
  | setMaybeBlocked
  | suspended
  | clearContinuation
  | removeAwaiter
  | setRunning
  | spinPaused
  deriving DecidableEq

/-- The next step of the task. A copy is what its yield or final awaiter has read
from `m_continuation`: whether that was the consumer. -/
inductive TaskPc
  | notStarted
  | setRunning
  | body
  | setYielded
  | readContinuation
  | readyYield (copy : Bool)
  | suspendRead (copy : Bool)
  | suspendYield (copy isCancelled : Bool)
  | resumeFromYield (allowed : Bool)
  | yielded
  | setReturned
  | exchangeContinuation
  | complete (copy : Bool)
  | readyFinal (copy : Bool)
  | suspendFinal (copy : Bool)
  | resumeFromFinal (allowed : Bool)
  | finished
  deriving DecidableEq

/-- The next step of `Coroutine::cancel` for the consumer, and of the
`TaskAwaiterBase::cancel` that it calls. -/
inductive CancelPc
  | idle
  | mark
  | status
  | empty
  | pause
  | takeAwaiter (foundBlockingAwaiter : Bool)
  | tryAwaiter (foundBlockingAwaiter : Bool)
  | exchange (foundBlockingAwaiter : Bool)
  | schedule (foundBlockingAwaiter : Bool)
  | checkPaused (foundBlockingAwaiter : Bool)
  | resume
  | returned
  deriving DecidableEq

structure State where
  status : CoroutineStatus
  cancelled : Bool
  /-- The awaiter is in the consumer's `m_awaiters`. -/
  awaiterListed : Bool
  maybeBlocked : Bool
  taskStatus : CoroutineStatus
  taskCancelled : Bool
  /-- The completed-state task will set `Completed`. -/
  completionPending : Bool
  /-- `m_continuation` is the consumer. -/
  continuation : Bool
  consumer : ConsumerPc
  /-- The thread that suspended the consumer still has to start the task. -/
  launching : Bool
  task : TaskPc
  canceller : CancelPc
  /-- How often the consumer was resumed since it last suspended. -/
  resumptions : ℕ
  /-- The chain that comes to the next `recordChainedExecution` of the consumer has an
  allowance above 0. -/
  allowed : Bool
  /-- The same for the task. -/
  taskAllowed : Bool
  /-- The assertion of `recordChainedExecution` failed; the run goes on as without it. -/
  assertFailed : Bool
  /-- `std::abort` was called: nothing runs any more. -/
  aborted : Bool
  deriving DecidableEq

inductive Action
  | await
  | consumer (sameThreadPoolKind canDoChainedExecution : Bool)
  | launch
  /-- The body of the task sets its status while it awaits something. -/
  | taskAwaits (status : CoroutineStatus)
  | yield
  | finish
  | task (sameThreadPoolKind canDoChainedExecution lastUnit : Bool)
  | complete
  | cancelTask
  | cancel
  | canceller

namespace State

/-- `setStatus(status)` of the consumer. -/
def setStatus (s : State) (status : CoroutineStatus)
    (next : CoroutineStatus → State → State) : State :=
  match CoroutineStatus.setStatus false s.status status with
  | some newStatus => next s.status { s with status := newStatus }
  | none => { s with aborted := true }

/-- `setStatus(status, isFinalAwaiter)` of the task. -/
def setTaskStatus (s : State) (isFinalAwaiter : Bool) (status : CoroutineStatus)
    (next : CoroutineStatus → State → State) : State :=
  match CoroutineStatus.setStatus isFinalAwaiter s.taskStatus status with
  | some newStatus => next s.taskStatus { s with taskStatus := newStatus }
  | none => { s with aborted := true }

theorem setStatus_of {s : State} {old status new : CoroutineStatus}
    {next : CoroutineStatus → State → State} (hold : s.status = old)
    (hnew : CoroutineStatus.setStatus false old status = some new) :
    s.setStatus status next = next old { s with status := new } := by
  unfold setStatus
  rw [hold, hnew]

theorem setTaskStatus_of {s : State} {isFinalAwaiter : Bool} {old status new : CoroutineStatus}
    {next : CoroutineStatus → State → State} (hold : s.taskStatus = old)
    (hnew : CoroutineStatus.setStatus isFinalAwaiter old status = some new) :
    s.setTaskStatus isFinalAwaiter status next = next old { s with taskStatus := new } := by
  unfold setTaskStatus
  rw [hold, hnew]

/-- The consumer is scheduled, or its handle is returned into a chain that is
`allowed`. Resuming a coroutine that is not suspended has no defined behaviour. -/
def resumeConsumer (s : State) (allowed : Bool) : State :=
  { s with
    consumer := if s.consumer = .suspended then .clearContinuation else s.consumer
    allowed := allowed
    resumptions := s.resumptions + 1 }

/-- `recordChainedExecution` at the end of the consumer's `onResume`. -/
def recordConsumer (s : State) : State :=
  { s with consumer := .body, assertFailed := s.assertFailed || !s.allowed }

/-- `recordChainedExecution` at the end of the task's `onResume`. -/
def recordTask (s : State) : State :=
  { s with task := .body, assertFailed := s.assertFailed || !s.taskAllowed }

end State

/-- What the next `recordChainedExecution` of a coroutine finds that is scheduled on the
advice `shouldSuspend`, and else goes on in the chain at hand. -/
def chainAllows (advice : SuspensionAdvice) (canDoChainedExecution : Bool) : Bool :=
  advice = .shouldSuspend || canDoChainedExecution

/-- `await_ready`, `await_suspend` and `await_resume` of `TaskAwaiter`. -/
def consumerStep (s : State) (sameThreadPoolKind canDoChainedExecution : Bool) :
    ConsumerPc → Option State
  | .ready =>
      let advice := AwaiterKind.task.onReady sameThreadPoolKind canDoChainedExecution s.status
        false s.cancelled
      some { s with
        awaiterListed := true
        allowed := canDoChainedExecution
        consumer := if advice = .shouldNotSuspend then .clearContinuation else .readyDone }
  | .readyDone =>
      some { s with
        consumer := if s.taskStatus.isDone = true then .clearContinuation else .suspendRead }
  | .suspendRead => some { s with consumer := .suspend s.cancelled }
  | .suspend isCancelled =>
      some (s.setStatus .suspended fun prevStatus s =>
        let advice := AwaiterKind.task.onSuspend sameThreadPoolKind canDoChainedExecution
          prevStatus false isCancelled
        if advice = .shouldNotSuspend then
          { s with
            allowed := canDoChainedExecution
            consumer := .clearContinuation
            resumptions := 1 }
        else
          { s with
            allowed := canDoChainedExecution
            taskAllowed := chainAllows advice canDoChainedExecution
            consumer := .taskStatus
            resumptions := 0 })
  | .taskStatus =>
      some { s with
        consumer :=
          if s.taskStatus = notStarted ∨ s.taskStatus = yieldedSuspended then
            .markTask s.taskStatus
          else .taskDone }
  | .taskDone =>
      some (if s.taskStatus.isDone = true then
          { s with consumer := .clearContinuation, resumptions := 1 }
        else { s with aborted := true })
  | .markTask expected =>
      some (if s.taskStatus = expected then
          { s with taskStatus := suspended, consumer := .storeContinuation }
        else { s with taskStatus := suspended, aborted := true })
  | .storeContinuation => some { s with continuation := true, consumer := .setMaybeBlocked }
  | .setMaybeBlocked =>
      some { s with maybeBlocked := true, consumer := .suspended, launching := true }
  | .clearContinuation => some { s with continuation := false, consumer := .removeAwaiter }
  | .removeAwaiter => some { s with awaiterListed := false, consumer := .setRunning }
  | .setRunning =>
      some (s.setStatus .running fun prevStatus s =>
        if prevStatus = .pauseOnRunning then { s with consumer := .spinPaused }
        else s.recordConsumer)
  | .spinPaused => some (if s.status = .paused then s else s.recordConsumer)
  | .body | .suspended => none

/-- `yield_value`, `final_suspend` and their awaiters. -/
def taskStep (s : State) (sameThreadPoolKind canDoChainedExecution lastUnit : Bool) :
    TaskPc → Option State
  | .setRunning => some (s.setTaskStatus false .running fun _ s => s.recordTask)
  | .setYielded =>
      some (s.setTaskStatus false .yielded fun _ s => { s with task := .readContinuation })
  | .readContinuation => some { s with task := .readyYield s.continuation }
  | .readyYield copy =>
      let advice := AwaiterKind.yield.onReady sameThreadPoolKind canDoChainedExecution
        s.taskStatus false s.taskCancelled
      some { s with
        taskAllowed := canDoChainedExecution
        task := if advice = .shouldNotSuspend then .setRunning else .suspendRead copy }
  | .suspendRead copy => some { s with task := .suspendYield copy s.taskCancelled }
  | .suspendYield copy isCancelled =>
      some (s.setTaskStatus false .suspended fun prevStatus s =>
        let advice := AwaiterKind.yield.onSuspend sameThreadPoolKind canDoChainedExecution
          prevStatus false isCancelled
        { s with
          taskAllowed := canDoChainedExecution
          task :=
            if advice = .shouldNotSuspend then .setRunning
            else if copy = true then .resumeFromYield (chainAllows advice canDoChainedExecution)
            else .yielded })
  | .resumeFromYield allowed => some { s.resumeConsumer allowed with task := .yielded }
  | .setReturned =>
      some (s.setTaskStatus false .returned fun _ s => { s with task := .exchangeContinuation })
  | .exchangeContinuation =>
      some { s with continuation := false, task := .complete s.continuation }
  | .complete copy =>
      some (if lastUnit = true then
          s.setTaskStatus false .completed fun _ s => { s with task := .readyFinal copy }
        else { s with completionPending := true, task := .readyFinal copy })
  | .readyFinal copy =>
      let advice := AwaiterKind.final.onReady sameThreadPoolKind canDoChainedExecution
        s.taskStatus false s.taskCancelled
      some { s with task :=
        if advice = .shouldNotSuspend then
          if copy = true then .resumeFromFinal true else .finished
        else .suspendFinal copy }
  | .suspendFinal copy =>
      some (s.setTaskStatus true .suspended fun prevStatus s =>
        let advice := AwaiterKind.final.onSuspend sameThreadPoolKind canDoChainedExecution
          prevStatus false s.taskCancelled
        { s with task :=
            if copy = true then .resumeFromFinal (chainAllows advice canDoChainedExecution)
            else .finished })
  | .resumeFromFinal allowed => some { s.resumeConsumer allowed with task := .finished }
  | .notStarted | .body | .yielded | .finished => none

/-- `Coroutine::cancel` and `TaskAwaiterBase::cancel`. -/
def cancelStep (s : State) : CancelPc → Option State
  | .mark => some { s with cancelled := true, canceller := .status }
  | .status =>
      some { s with canceller := if s.status = .suspended then .empty else .returned }
  | .empty =>
      some { s with canceller := if s.awaiterListed = true then .pause else .returned }
  | .pause =>
      some (s.setStatus .pauseOnRunning fun prevStatus s =>
        { s with canceller :=
            if prevStatus = .suspended then .takeAwaiter false else .returned })
  | .takeAwaiter found =>
      some (if s.awaiterListed = true then
          { s with awaiterListed := false, canceller := .tryAwaiter found }
        else { s with canceller := .checkPaused found })
  | .tryAwaiter found =>
      some { s with
        canceller := if s.maybeBlocked = true then .exchange found else .takeAwaiter found }
  | .exchange found =>
      some (if s.continuation = true then
          { s with continuation := false, canceller := .schedule found }
        else { s with canceller := .takeAwaiter true })
  | .schedule found => some { s.resumeConsumer true with canceller := .takeAwaiter found }
  | .checkPaused found =>
      some { s with canceller :=
        if found = true ∧ s.status ≠ .paused then .takeAwaiter false else .resume }
  | .resume => some (s.setStatus .resumed fun _ s => { s with canceller := .returned })
  | .idle | .returned => none

def step (s : State) (a : Action) : Option State :=
  if s.aborted = true then none
  else match a with
    | .await =>
        -- `await_transform` throws into the body when the consumer is cancelled
        if s.consumer = .body then
          some (if s.cancelled = true then s
            else { s with maybeBlocked := false, consumer := .ready })
        else none
    | .consumer sameThreadPoolKind canDoChainedExecution =>
        consumerStep s sameThreadPoolKind canDoChainedExecution s.consumer
    | .launch =>
        -- resuming a task that is not parked has no defined behaviour
        if s.launching = true then
          some { s with
            launching := false
            task := if s.task = .notStarted ∨ s.task = .yielded then .setRunning else s.task }
        else none
    | .taskAwaits status =>
        if s.task = .body ∧ (status = suspended ∨ status = running ∨
            status = pauseOnRunning ∨ status = resumed) then
          some (s.setTaskStatus false status fun _ s => s)
        else none
    | .yield =>
        if s.task = .body ∧ s.taskStatus = running then some { s with task := .setYielded }
        else none
    | .finish =>
        if s.task = .body ∧ s.taskStatus = running then some { s with task := .setReturned }
        else none
    | .task sameThreadPoolKind canDoChainedExecution lastUnit =>
        taskStep s sameThreadPoolKind canDoChainedExecution lastUnit s.task
    | .complete =>
        if s.completionPending = true then
          some (s.setTaskStatus false .completed fun _ s => { s with completionPending := false })
        else none
    | .cancelTask => some { s with taskCancelled := true }
    | .cancel =>
        if s.canceller = .idle then some { s with canceller := .mark } else none
    | .canceller => cancelStep s s.canceller

/-- The consumer runs and has not awaited the task yet. -/
def initial : State where
  status := running
  cancelled := false
  awaiterListed := false
  maybeBlocked := false
  taskStatus := notStarted
  taskCancelled := false
  completionPending := false
  continuation := false
  consumer := .body
  launching := false
  task := .notStarted
  canceller := .idle
  resumptions := 0
  allowed := true
  taskAllowed := true
  assertFailed := false
  aborted := false

def system : StepSystem State Action where
  start s := s = initial
  step := step

end LevelzAsync.TaskAwait
