import LevelzAsync.CoroutineStatus
import LevelzAsync.StepSystem
import Mathlib.Data.Fintype.Card
import Mathlib.Logic.Function.Basic

/-!
# The asynchronous barrier at the level of its atomic operations

Participants go through `AsyncBarrierAwaiter` in the threads that run them, and
threads call `cancel`. The wait list is the atomic queue that
`ConcurrentFifoList` was shown to be. A thread that dereferences a null node or
whose assertion fails stays at `failed`. A coroutine that is in the wait list can
be resumed by another thread before the call that put it there has returned.
-/

namespace LevelzAsync.AsyncBarrier

/-- Who called `arriveAndRelease`: `await_ready` with no awaiter, or
`arriveAndWait`; `skipped` records that its own node came by. -/
inductive Releaser (P : Type*)
  | ready (p : P)
  | suspend (p : P) (mustSuspend skipped : Bool)
  deriving DecidableEq

def Releaser.participant {P : Type*} : Releaser P → P
  | .ready p | .suspend p _ _ => p

/-- The next step of a thread inside a call; `mustSuspend` says that the advice
was `shouldSuspend`, `count` is the local variable of `arriveAndWait`. -/
inductive Call (P : Type*)
  | idle
  | ready (p : P)
  | readyIsCanceled (p : P)
  | readyRelease (p : P)
  | suspend (p : P)
  | suspendIsCanceled (p : P) (mustSuspend : Bool)
  | loadCount (p : P) (mustSuspend : Bool)
  | isCanceled (p : P) (mustSuspend : Bool) (count : ℕ)
  | enqueue (p : P) (mustSuspend : Bool) (count : ℕ)
  | isCanceledAgain (p : P) (mustSuspend : Bool) (count : ℕ)
  | arrive (p : P) (mustSuspend : Bool) (count : ℕ)
  | assertCount (p : P)
  | releaseLoad (p : P) (mustSuspend : Bool)
  | releaseStore (releaser : Releaser P)
  | releaseDequeue (releaser : Releaser P) (left : ℕ)
  | releaseSchedule (releaser : Releaser P) (node : P) (left : ℕ)
  | cancelIsCanceled
  | cancelMark
  | drainDequeue
  | drainSchedule (node : P)
  | failed
  deriving DecidableEq

inductive Place
  | running
  | arriving
  | suspended
  | scheduled
  deriving DecidableEq

structure State (Thread P : Type*) where
  /-- `m_capacity`. -/
  capacity : ℕ
  /-- `m_count`. -/
  count : ℕ
  canceled : Bool
  waitList : List P
  call : Thread → Call P
  co : P → Place
  /-- How often the participant was put into the wait list or released the
  others without waiting. -/
  arrived : P → ℕ
  /-- How often the participant was scheduled by a call, or went on because it was
  the last to arrive. -/
  released : P → ℕ
  /-- How often the participant has gone on after it had awaited the barrier. -/
  passed : P → ℕ
  /-- The participant has incremented `m_count` in this round. -/
  counted : P → Bool
  /-- How often `m_count` was set back to zero. -/
  rounds : ℕ
  /-- A cancellation has taken a node out of the wait list. -/
  drained : Bool

/-- A participant awaits the barrier, a scheduled participant goes on, `cancel`
is called, or a call goes on; `advice` is the answer of `onReady` or `onSuspend`. -/
inductive Action (Thread P : Type*)
  | await (p : P) (t : Thread)
  | resume (p : P)
  | cancel (t : Thread)
  | call (t : Thread) (advice : SuspensionAdvice) (spurious : Bool)

variable {Thread P : Type*} [DecidableEq Thread] [DecidableEq P]

namespace State

def go (s : State Thread P) (t : Thread) (c : Call P) : State Thread P :=
  { s with call := Function.update s.call t c }

def move (s : State Thread P) (p : P) (place : Place) : State Thread P :=
  { s with co := Function.update s.co p place }

/-- The participant goes on after `await_ready` answered true or `await_suspend`
false, at once or over the thread pool. -/
def leave (s : State Thread P) (t : Thread) (p : P) (mustSuspend : Bool) : State Thread P :=
  { (s.go t .idle).move p (if mustSuspend = true then .scheduled else .running) with
    passed := if mustSuspend = true then s.passed
      else Function.update s.passed p (s.passed p + 1) }

def schedule (s : State Thread P) (p : P) : State Thread P :=
  { s.move p .scheduled with released := Function.update s.released p (s.released p + 1) }

/-- `arriveAndRelease` has returned true. -/
def returnRelease (s : State Thread P) (t : Thread) : Releaser P → State Thread P
  | .ready p =>
      { s.leave t p false with released := Function.update s.released p (s.released p + 1) }
  | .suspend p mustSuspend _ =>
      { s.leave t p mustSuspend with released := Function.update s.released p (s.released p + 1) }

def dequeCount (s : State Thread P) : Releaser P → ℕ
  | .ready _ => s.capacity - 1
  | .suspend _ _ _ => s.capacity

end State

def Releaser.take (node : P) (left : ℕ) : Releaser P → Call P
  | .ready p => .releaseSchedule (.ready p) node left
  | .suspend p mustSuspend skipped =>
      if node = p then .releaseDequeue (.suspend p mustSuspend true) left
      else .releaseSchedule (.suspend p mustSuspend skipped) node left

def callStep (s : State Thread P) (t : Thread) (advice : SuspensionAdvice) (spurious : Bool) :
    Call P → Option (State Thread P)
  | .ready p =>
      some (match advice with
        | .shouldNotSuspend => s.leave t p false
        | .shouldSuspend => s.go t (.suspend p)
        | .maySuspend => s.go t (.readyIsCanceled p))
  | .readyIsCanceled p =>
      some (if s.canceled = true then s.leave t p false else s.go t (.readyRelease p))
  | .readyRelease p =>
      some (if s.count + 1 = s.capacity then
          { s.go t (.releaseStore (.ready p)) with
            arrived := Function.update s.arrived p (s.arrived p + 1) }
        else s.go t (.suspend p))
  | .suspend p =>
      some (if advice = .shouldNotSuspend then s.leave t p false
        else s.go t (.suspendIsCanceled p (advice = .shouldSuspend)))
  | .suspendIsCanceled p mustSuspend =>
      some (if s.canceled = true then s.leave t p mustSuspend
        else s.go t (.loadCount p mustSuspend))
  | .loadCount p mustSuspend => some (s.go t (.isCanceled p mustSuspend s.count))
  | .isCanceled p mustSuspend count =>
      some (if s.canceled = true then s.leave t p mustSuspend
        else s.go t (.enqueue p mustSuspend count))
  | .enqueue p mustSuspend count =>
      some { (s.go t (.isCanceledAgain p mustSuspend count)).move p .suspended with
        waitList := s.waitList ++ [p]
        arrived := Function.update s.arrived p (s.arrived p + 1) }
  | .isCanceledAgain p mustSuspend count =>
      some (s.go t (if s.canceled = true then .drainDequeue else .arrive p mustSuspend count))
  | .arrive p mustSuspend count =>
      some (if s.capacity ≤ count then s.go t .failed
        else if count + 1 = s.capacity then s.go t (.releaseLoad p mustSuspend)
        else if spurious = true ∨ s.count ≠ count then s.go t (.arrive p mustSuspend s.count)
        else { s.go t (.assertCount p) with
          count := count + 1
          counted := Function.update s.counted p true })
  | .assertCount _ => some (s.go t (if s.count < s.capacity then .idle else .failed))
  | .releaseLoad p mustSuspend =>
      some (s.go t (if s.count + 1 = s.capacity then .releaseStore (.suspend p mustSuspend false)
        else .failed))
  | .releaseStore releaser =>
      some { s.go t (.releaseDequeue releaser (s.dequeCount releaser)) with
        count := 0
        counted := fun _ => false
        rounds := s.rounds + 1 }
  | .releaseDequeue releaser left =>
      some (match left, s.waitList with
        | 0, _ => s.returnRelease t releaser
        | _ + 1, [] => s.go t .failed
        | left + 1, node :: rest => { s.go t (releaser.take node left) with waitList := rest })
  | .releaseSchedule releaser node left =>
      some ((s.go t (.releaseDequeue releaser left)).schedule node)
  | .cancelIsCanceled => some (s.go t (if s.canceled = true then .idle else .cancelMark))
  | .cancelMark => some { s.go t .drainDequeue with canceled := true }
  | .drainDequeue =>
      some (match s.waitList with
        | [] => s.go t .idle
        | node :: rest => { s.go t (.drainSchedule node) with waitList := rest, drained := true })
  | .drainSchedule node => some ((s.go t .drainDequeue).schedule node)
  | .idle | .failed => none

def step (s : State Thread P) : Action Thread P → Option (State Thread P)
  | .await p t =>
      if s.co p = .running ∧ s.call t = .idle then some ((s.go t (.ready p)).move p .arriving)
      else none
  | .resume p =>
      if s.co p = .scheduled then
        some { s.move p .running with passed := Function.update s.passed p (s.passed p + 1) }
      else none
  | .cancel t => if s.call t = .idle then some (s.go t .cancelIsCanceled) else none
  | .call t advice spurious => callStep s t advice spurious (s.call t)

def initial (capacity : ℕ) : State Thread P where
  capacity := capacity
  count := 0
  canceled := false
  waitList := []
  call _ := .idle
  co _ := .running
  arrived _ := 0
  released _ := 0
  passed _ := 0
  counted _ := false
  rounds := 0
  drained := false

def system (Thread P : Type*) [DecidableEq Thread] [DecidableEq P] (capacity : ℕ) :
    StepSystem (State Thread P) (Action Thread P) where
  start s := s = initial capacity
  step := step

end LevelzAsync.AsyncBarrier
