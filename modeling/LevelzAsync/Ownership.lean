import LevelzAsync.StepSystem
import Mathlib.Data.Fintype.Sum

/-!
# Owners and completion counts of coroutines

`m_completionEvent` of a coroutine counts its own unit, one unit for each
coroutine that it owns, and the units of the calls in progress. `setOwner` is
called with the coroutine that runs, by its body, or with null. One step is one
access to a count or to an owner word; the compare-exchange loops of `countUp`
and `countDown` only re-read the count.
-/

namespace LevelzAsync.Ownership

variable {Thread Co : Type*}

/-- The next step of `Coroutine::setOwner` or `signalOwner` for the coroutine `c`. -/
inductive Call (Co : Type*)
  | idle
  | isZero (c : Co) (newOwner : Option Co)
  | countUp (c : Co) (newOwner : Option Co)
  | alreadyCompleted (c : Co)
  | countUpOwner (c newOwner : Co)
  | exchange (c : Co) (newOwner : Option Co)
  | countDownOld (c oldOwner : Co)
  | countDownSelf (c : Co)
  | checkZero (c : Co)
  | signalExchange (c : Co)
  | signalCountDown (c owner : Co)
  deriving DecidableEq

/-- Where a coroutine is between its creation and the end of its completion. The
final awaiter completes it at once when its own unit is the last one; else the
completed-state task does, which waits for the count to be zero. -/
inductive Stage (Co : Type*)
  | absent
  | starting
  | running
  | countCheck
  | setEvent
  | countDownLast
  | enqueueCompletedState
  | countDown
  | waiting
  | setEventLate
  | signalExchange
  | signalCountDown (owner : Co)
  | completed
  deriving DecidableEq

/-- A coroutine's body, or a thread in which no coroutine runs. -/
abbrev Agent (Thread Co : Type*) := Co ⊕ Thread

structure State (Thread Co : Type*) where
  /-- The count of `m_completionEvent`. -/
  count : Co → ℕ
  owner : Co → Option Co
  stage : Co → Stage Co
  call : Agent Thread Co → Call Co
  /-- The coroutine whose body created the coroutine, the one that created that, and so on. -/
  creators : Co → List Co
  /-- `m_event` of a `SyncTask`. -/
  eventSet : Co → Bool

/-- `create` is the construction of a coroutine and of its first handle by the
body of `r`; every other construction, assignment or drop of a handle of `c` is
a `setOwner`, and so is `setCancelAbandoned`, which clears the owner. `discard`
destroys a suspended task with its last handle. -/
inductive Action (Thread Co : Type*)
  | create (r c : Co)
  | start (c : Co)
  | setOwner (a : Agent Thread Co) (c : Co) (clear : Bool)
  | call (a : Agent Thread Co)
  | finish (r : Co)
  | discard (c : Co)
  | completion (c : Co)

/-- `std::numeric_limits<int>::max()`. -/
def maxCount : ℕ := 2147483647

/-- The count after `AsyncCountDownEvent::countUp`, which returns whether the
count was zero before. -/
def countUp (prevCount : ℕ) : ℕ := if prevCount = maxCount then prevCount else prevCount + 1

def countDown (prevCount : ℕ) : ℕ := if prevCount = 0 then prevCount else prevCount - 1

variable [DecidableEq Thread] [DecidableEq Co]

namespace State

def setCount (s : State Thread Co) (o : Co) (count : ℕ) : State Thread Co :=
  { s with count := Function.update s.count o count }

def goCall (s : State Thread Co) (a : Agent Thread Co) (p : Call Co) : State Thread Co :=
  { s with call := Function.update s.call a p }

def goStage (s : State Thread Co) (c : Co) (p : Stage Co) : State Thread Co :=
  { s with stage := Function.update s.stage c p }

def storeOwner (s : State Thread Co) (c : Co) (owner : Option Co) : State Thread Co :=
  { s with owner := Function.update s.owner c owner }

end State

/-- `Coroutine::setOwner` and `Coroutine::signalOwner`. -/
def callStep (s : State Thread Co) (a : Agent Thread Co) : Call Co → Option (State Thread Co)
  | .isZero c newOwner =>
      some (s.goCall a (if s.count c = 0 then .idle else .countUp c newOwner))
  | .countUp c newOwner =>
      some ((s.setCount c (countUp (s.count c))).goCall a
        (if s.count c = 0 then .alreadyCompleted c
          else match newOwner with
            | some o => .countUpOwner c o
            | none => .exchange c none))
  | .alreadyCompleted c =>
      some ((s.setCount c (countDown (s.count c))).goCall a (.signalExchange c))
  | .countUpOwner c o =>
      some ((s.setCount o (countUp (s.count o))).goCall a (.exchange c (some o)))
  | .exchange c newOwner =>
      some ((s.storeOwner c newOwner).goCall a
        (match s.owner c with
          | some oldOwner => .countDownOld c oldOwner
          | none => .countDownSelf c))
  | .countDownOld c oldOwner =>
      some ((s.setCount oldOwner (countDown (s.count oldOwner))).goCall a (.countDownSelf c))
  | .countDownSelf c =>
      some ((s.setCount c (countDown (s.count c))).goCall a (.checkZero c))
  | .checkZero c => some (s.goCall a (if s.count c = 0 then .signalExchange c else .idle))
  | .signalExchange c =>
      some ((s.storeOwner c none).goCall a
        (match s.owner c with
          | some owner => .signalCountDown c owner
          | none => .idle))
  | .signalCountDown _ owner =>
      some ((s.setCount owner (countDown (s.count owner))).goCall a .idle)
  | .idle => none

/-- The final awaiters and the completed-state tasks. The pool runs a
completed-state task that was dequeued while the count was zero. -/
def completionStep (s : State Thread Co) (c : Co) : Stage Co → Option (State Thread Co)
  | .countCheck =>
      some (s.goStage c (if s.count c = 1 then .setEvent else .enqueueCompletedState))
  | .setEvent =>
      some { s.goStage c .countDownLast with eventSet := Function.update s.eventSet c true }
  | .countDownLast => some ((s.setCount c (countDown (s.count c))).goStage c .signalExchange)
  | .enqueueCompletedState => some (s.goStage c .countDown)
  | .countDown => some ((s.setCount c (countDown (s.count c))).goStage c .waiting)
  | .waiting => if s.count c = 0 then some (s.goStage c .setEventLate) else none
  | .setEventLate =>
      some { s.goStage c .signalExchange with eventSet := Function.update s.eventSet c true }
  | .signalExchange =>
      some ((s.storeOwner c none).goStage c
        (match s.owner c with
          | some owner => .signalCountDown owner
          | none => .completed))
  | .signalCountDown owner =>
      some ((s.setCount owner (countDown (s.count owner))).goStage c .completed)
  | _ => none

def Call.target : Call Co → Option Co
  | .idle => none
  | .isZero c _ | .countUp c _ | .alreadyCompleted c | .countUpOwner c _ | .exchange c _
  | .countDownOld c _ | .countDownSelf c | .checkZero c | .signalExchange c
  | .signalCountDown c _ => some c

def step [Fintype Thread] [Fintype Co] (s : State Thread Co) :
    Action Thread Co → Option (State Thread Co)
  | .create r c =>
      if s.stage c = .absent ∧ s.stage r = .running ∧ s.call (.inl r) = .idle then
        some { (s.goStage c .starting).goCall (.inl r) (.isZero c (some r)) with
          creators := Function.update s.creators c (r :: s.creators r) }
      else none
  | .start c =>
      -- `get_return_object` comes before the initial suspension
      if s.stage c = .starting ∧ ∀ a, (s.call a).target ≠ some c then
        some (s.goStage c .running)
      else none
  | .setOwner a c clear =>
      if s.call a = .idle ∧ s.stage c ≠ .absent ∧ s.stage c ≠ .starting then
        match a with
        | .inl r =>
            if s.stage r = .running then
              some (s.goCall a (.isZero c (if clear = true then none else some r)))
            else none
        | .inr _ => if clear = true then some (s.goCall a (.isZero c none)) else none
      else none
  | .call a => callStep s a (s.call a)
  | .finish r =>
      if s.stage r = .running ∧ s.call (.inl r) = .idle then some (s.goStage r .countCheck)
      else none
  | .discard c =>
      if s.stage c = .running ∧ s.call (.inl c) = .idle ∧ s.count c = 1 then
        some (s.goStage c .countDownLast)
      else none
  | .completion c => completionStep s c (s.stage c)

/-- Coroutines that were created by no coroutine run; no other exists yet. -/
def initial (isRoot : Co → Bool) : State Thread Co where
  count _ := 1
  owner _ := none
  stage c := if isRoot c = true then .running else .absent
  call _ := .idle
  creators _ := []
  eventSet _ := false

def system (Thread Co : Type*) [DecidableEq Thread] [DecidableEq Co] [Fintype Thread]
    [Fintype Co] : StepSystem (State Thread Co) (Action Thread Co) where
  start s := ∃ isRoot, s = initial isRoot
  step := step

end LevelzAsync.Ownership
