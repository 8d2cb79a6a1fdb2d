import LevelzAsync.TaskResumption

/-!
# A task used as a generator

The body yields the values of a script and then returns or throws. `m_value` is
the slot that the body writes before it sets its status and that the consumer
reads at the end of `await_resume`. The consumer and the task are those of
`TaskAwait`, without the steps of a canceller; a failed assertion stops the run.
-/

namespace LevelzAsync.Generator

open CoroutineStatus TaskAwait

inductive Result (V E : Type*)
  | value (v : V)
  | error (e : E)
  deriving DecidableEq

structure State (V E : Type*) where
  await : TaskAwait.State
  /-- What the body still has to yield. -/
  script : List V
  /-- What the body returns or throws in the end. -/
  last : Result V E
  /-- `m_value`; `none` is the null exception pointer. -/
  value : Option (Result V E)
  /-- A `co_await` of the consumer has not given its result yet. -/
  pending : Bool
  /-- The results of the consumer's awaits so far. -/
  received : List (Result V E)
  /-- How often the body has written `m_value`. -/
  produced : ℕ
  /-- An assertion about the status of the task failed, or `value` found no value. -/
  failed : Bool

inductive Action
  | await
  | consumer (sameThreadPoolKind canDoChainedExecution : Bool)
  /-- `value` at the end of `await_resume`. -/
  | read
  | launch
  /-- The body of the task suspends in an await of its own, or goes on after it. -/
  | taskAwaits (goesOn : Bool)
  | yield
  | finish
  | task (sameThreadPoolKind canDoChainedExecution lastUnit : Bool)
  | complete

variable {V E : Type*}

/-- The assertion in `await_transform`. -/
def isAwaitable (status : CoroutineStatus) : Bool :=
  status = yieldedSuspended ∨ status = notStarted ∨ status.isDone = true

/-- The assertion in `checkResult`. -/
def hasResult (status : CoroutineStatus) : Bool :=
  status.isDone = true ∨ status = yielded ∨ status = yieldedSuspended

def State.go (s : State V E) (t : TaskAwait.State) : State V E := { s with await := t }

def step (s : State V E) (a : Action) : Option (State V E) :=
  if s.failed = true ∨ s.await.assertFailed = true then none
  else match a with
    | .await =>
        if s.pending = true then none
        else (TaskAwait.step s.await .await).map fun t =>
          { s.go t with pending := true, failed := !isAwaitable s.await.taskStatus }
    | .consumer sameThreadPoolKind canDoChainedExecution =>
        (TaskAwait.step s.await (.consumer sameThreadPoolKind canDoChainedExecution)).map s.go
    | .read =>
        if s.pending = true ∧ s.await.consumer = .body then
          some (match hasResult s.await.taskStatus, s.value with
            | true, some r => { s with pending := false, received := s.received ++ [r] }
            | _, _ => { s with failed := true })
        else none
    | .launch => (TaskAwait.step s.await .launch).map s.go
    | .taskAwaits goesOn =>
        (TaskAwait.step s.await (.taskAwaits (if goesOn = true then running else suspended))).map
          s.go
    | .yield =>
        match s.script with
        | [] => none
        | v :: script => (TaskAwait.step s.await .yield).map fun t =>
            { s.go t with
              script := script, value := some (.value v), produced := s.produced + 1 }
    | .finish =>
        match s.script with
        | [] => (TaskAwait.step s.await .finish).map fun t =>
            { s.go t with value := some s.last, produced := s.produced + 1 }
        | _ :: _ => none
    | .task sameThreadPoolKind canDoChainedExecution lastUnit =>
        (TaskAwait.step s.await
          (.task sameThreadPoolKind canDoChainedExecution lastUnit)).map s.go
    | .complete => (TaskAwait.step s.await .complete).map s.go

def initial (values : List V) (last : Result V E) : State V E where
  await := TaskAwait.initial
  script := values
  last := last
  value := none
  pending := false
  received := []
  produced := 0
  failed := false

def system (values : List V) (last : Result V E) : StepSystem (State V E) Action where
  start s := s = initial values last
  step := step

/-- The consumer awaits a task that is done, on a thread whose allowance is 0. -/
def State.awaitsDone (s : State V E) : Action → Bool
  | .consumer _ canDoChainedExecution =>
      s.await.consumer = .ready && !canDoChainedExecution && s.await.taskStatus.isDone
  | _ => false

/-- What the await with index `i` is to give. -/
def delivered (values : List V) (last : Result V E) (i : ℕ) : Result V E :=
  match values[i]? with
  | some v => .value v
  | none => last

end LevelzAsync.Generator
