import LevelzAsync.Monitor
import LevelzAsync.StepSystem

/-!
# The auto-reset event of one blocking thread

The calls of `SyncAutoResetEvent` in steps: each access to `m_state`, taking the
mutex, the notification, and the wait on the condition variable. One thread calls
`wait` and `waitFor`; it may call `set` and `trySet` as well when it does not wait.
-/

namespace LevelzAsync.SyncAutoResetEvent

inductive EventState
  | set
  | notSet
  | none
  deriving DecidableEq

/-- The next step of a thread inside a call; `timed` tells `waitFor` from `wait`. -/
inductive Call
  | idle
  | setExchange
  | setLock
  | setNotify
  | setUnlock
  | trySetLock
  | trySetExchange
  | trySetNotify
  | trySetUnlock
  | waitExchange (timed : Bool)
  | waitAssertPrev (prevState : EventState)
  | waitClear
  | waitLock (timed : Bool)
  | waitTest (timed : Bool)
  | waitPredicate (timed : Bool)
  | waitBlock (timed : Bool)
  | waitReacquire (timed : Bool)
  | waitTimedOut
  | waitLastPredicate
  | waitAssertSet
  | waitStore
  | waitUnlock
  /-- An assertion has failed. -/
  | aborted
  deriving DecidableEq

structure State (Thread : Type*) where
  /-- `m_state`. -/
  state : EventState
  /-- `m_mutex` and `m_cv`. -/
  monitor : Monitor Thread
  call : Thread → Call
  /-- How many calls of `wait` and `waitFor` have returned. -/
  returns : ℕ
  /-- `Set` was stored since the last of them returned. -/
  signalled : Bool

inductive Action (Thread : Type*)
  | set (t : Thread)
  | trySet (t : Thread)
  | wait (timed : Bool)
  | call (t notified : Thread)
  /-- `try_lock` may fail although the mutex is free. -/
  | tryLockFails (t : Thread)
  /-- The time of a `waitFor` is over. -/
  | timeout
  /-- The condition variable wakes the waiter without a reason. -/
  | spurious

variable {Thread : Type*} [DecidableEq Thread]

namespace State

def go (s : State Thread) (t : Thread) (p : Call) : State Thread :=
  { s with call := Function.update s.call t p }

def goLocked (s : State Thread) (t : Thread) (p : Call) (m : Monitor Thread) : State Thread :=
  { s.go t p with monitor := m }

def exchangeSet (s : State Thread) (t : Thread) (p : Call) : State Thread :=
  { s.go t p with state := .set, signalled := true }

/-- The end of a wait. -/
def returnWait (s : State Thread) (t : Thread) : State Thread :=
  { s.go t .idle with returns := s.returns + 1, signalled := false }

end State

def callStep (s : State Thread) (t notified : Thread) : Call → Option (State Thread)
  | .idle | .aborted => none
  | .setExchange => some (s.exchangeSet t (if s.state = .notSet then .setLock else .idle))
  | .setLock => (s.monitor.lock t).map (s.goLocked t .setNotify)
  | .setNotify => (s.monitor.notifyOne notified).map (s.goLocked t .setUnlock)
  | .setUnlock | .trySetUnlock => some (s.goLocked t .idle s.monitor.unlock)
  | .trySetLock =>
      some (((s.monitor.lock t).map (s.goLocked t .trySetExchange)).getD (s.go t .idle))
  | .trySetExchange => some (s.exchangeSet t .trySetNotify)
  | .trySetNotify => (s.monitor.notifyOne notified).map (s.goLocked t .trySetUnlock)
  | .waitExchange timed =>
      some (if s.state = .none then { s.go t (.waitLock timed) with state := .notSet }
        else s.go t (.waitAssertPrev s.state))
  | .waitAssertPrev prevState => some (s.go t (if prevState = .set then .waitClear else .aborted))
  | .waitClear => some { s.returnWait t with state := .none }
  | .waitLock timed => (s.monitor.lock t).map (s.goLocked t (.waitTest timed))
  | .waitTest timed =>
      some (s.go t (if s.state = .set then .waitStore else .waitPredicate timed))
  | .waitPredicate timed =>
      some (s.go t (if s.state ≠ .set then .waitBlock timed
        else if timed = true then .waitStore else .waitAssertSet))
  | .waitBlock timed => some (s.goLocked t (.waitReacquire timed) (s.monitor.wait t))
  | .waitReacquire timed => (s.monitor.reacquire t).map (s.goLocked t (.waitPredicate timed))
  | .waitTimedOut => (s.monitor.lock t).map (s.goLocked t .waitLastPredicate)
  | .waitLastPredicate => some (s.go t .waitStore)
  | .waitAssertSet => some (s.go t (if s.state = .set then .waitStore else .aborted))
  | .waitStore => some { s.go t .waitUnlock with state := .none }
  | .waitUnlock => some { s.returnWait t with monitor := s.monitor.unlock }

def step (waiter : Thread) (s : State Thread) : Action Thread → Option (State Thread)
  | .set t => if s.call t = .idle then some (s.go t .setExchange) else none
  | .trySet t => if s.call t = .idle then some (s.go t .trySetLock) else none
  | .wait timed => if s.call waiter = .idle then some (s.go waiter (.waitExchange timed)) else none
  | .call t notified => callStep s t notified (s.call t)
  | .tryLockFails t => if s.call t = .trySetLock then some (s.go t .idle) else none
  | .timeout =>
      if s.call waiter = .waitReacquire true then
        some (s.goLocked waiter .waitTimedOut (s.monitor.wake waiter))
      else none
  | .spurious => some { s with monitor := s.monitor.wake waiter }

def initial (initiallySet : Bool) : State Thread where
  state := if initiallySet = true then .set else .none
  monitor := .free
  call _ := .idle
  returns := 0
  signalled := false

def system {Thread : Type*} [DecidableEq Thread] (waiter : Thread) :
    StepSystem (State Thread) (Action Thread) where
  start s := ∃ initiallySet, s = initial initiallySet
  step := step waiter

end LevelzAsync.SyncAutoResetEvent
