import Mathlib.Tactic.SplitIfs

/-!
# The status word of a coroutine

`setStatus` is the switch of `Coroutine::setStatus`. The compare-exchange loop
around it only re-reads the word, so the transition is one atomic step from the
status found; `none` stands for `std::abort`.
-/

namespace LevelzAsync

inductive CoroutineStatus
  | notStarted
  | running
  | paused
  | suspended
  | pauseOnRunning
  | yielded
  | returned
  | completed
  | abandoned
  | resumed
  | returnedCompleted
  | yieldedSuspended
  | finalSuspended
  | abandonedFinalSuspended
  | abandonedYieldSuspended
  | abandonedCompleted
  | completedFinalSuspended
  deriving DecidableEq

inductive AwaiterKind
  | initial
  | final
  | yield
  | task
  | mutex
  | event
  | value
  | barrier
  | threadPool
  deriving DecidableEq

inductive TaskKind
  | simple
  | task
  | async
  | sync
  deriving DecidableEq

inductive SuspensionAdvice
  | maySuspend
  | shouldSuspend
  | shouldNotSuspend
  deriving DecidableEq

/-- `onReady` puts the awaiter into `m_awaiters`, and `onResume` takes it out. -/
def AwaiterKind.isRegistered : AwaiterKind → Bool
  | .initial | .final | .yield => false
  | _ => true

/-- What a coroutine body can wait for. -/
def AwaiterKind.isBlocking : AwaiterKind → Bool
  | .task | .mutex | .event | .value | .barrier => true
  | _ => false

namespace CoroutineStatus

/-- The status after `setStatus(status, isFinalAwaiter)` finds `current`. -/
def setStatus (isFinalAwaiter : Bool) (current status : CoroutineStatus) :
    Option CoroutineStatus :=
  match current with
  | notStarted =>
      match status with
      | pauseOnRunning | suspended => some notStarted
      | abandoned => some abandoned
      | running => some running
      | _ => none
  | returned =>
      match status with
      | pauseOnRunning => some returned
      | abandoned => some abandoned
      | completed => some returnedCompleted
      | suspended => some finalSuspended
      | _ => none
  | yielded =>
      match status with
      | pauseOnRunning => some yielded
      | abandoned => some abandoned
      | suspended => some yieldedSuspended
      | running => some running
      | _ => none
  | finalSuspended =>
      match status with
      | pauseOnRunning => some finalSuspended
      | abandoned => some abandonedFinalSuspended
      | completed => some completedFinalSuspended
      | _ => none
  | yieldedSuspended =>
      match status with
      | pauseOnRunning => some yieldedSuspended
      | abandoned => some abandonedYieldSuspended
      | running => some running
      | _ => none
  | returnedCompleted =>
      match status with
      | pauseOnRunning => some returnedCompleted
      | abandoned => some abandonedCompleted
      | suspended => some completedFinalSuspended
      | _ => none
  | running =>
      match status with
      | running | pauseOnRunning => some running
      | suspended => some suspended
      | returned => some returned
      | yielded => some yielded
      | abandoned => some abandoned
      | _ => none
  | suspended =>
      match status with
      | suspended => some suspended
      | running => some running
      | abandoned => some abandoned
      | pauseOnRunning => some pauseOnRunning
      | _ => none
  | completed | resumed => none
  | abandoned =>
      match status with
      | suspended => some (if isFinalAwaiter = true then abandonedFinalSuspended else abandoned)
      | completed => some abandonedCompleted
      | running | returned | yielded => some abandoned
      | _ => none
  | abandonedFinalSuspended =>
      match status with
      | completed => some abandonedFinalSuspended
      | _ => none
  | abandonedYieldSuspended =>
      match status with
      | running => some abandoned
      | _ => none
  | abandonedCompleted =>
      match status with
      | suspended => some abandonedCompleted
      | _ => none
  | completedFinalSuspended =>
      match status with
      | abandoned => some completedFinalSuspended
      | _ => none
  | pauseOnRunning =>
      match status with
      | running => some paused
      | resumed => some suspended
      | _ => none
  | paused =>
      match status with
      | resumed => some running
      | _ => none

def isDone (status : CoroutineStatus) : Bool :=
  status = returned ∨ status = returnedCompleted ∨ status = finalSuspended ∨
    status = completedFinalSuspended

end CoroutineStatus

namespace AwaiterKind

/-- `Awaiter::onReady`, on the values that it loads. -/
def onReady (kind : AwaiterKind) (sameThreadPoolKind canDoChainedExecution : Bool)
    (status : CoroutineStatus) (shouldCancelAbandoned isCancelled : Bool) : SuspensionAdvice :=
  if status = .abandonedCompleted then .shouldNotSuspend
  else if sameThreadPoolKind = false then .shouldSuspend
  else if canDoChainedExecution = false then .shouldSuspend
  else if kind ≠ .final ∧ status = .abandoned ∧ shouldCancelAbandoned = true then .shouldNotSuspend
  else if kind ≠ .final ∧ isCancelled = true then .shouldNotSuspend
  else .maySuspend

/-- `Awaiter::onSuspend` after its `setStatus(Suspended)`, which found `status`. -/
def onSuspend (kind : AwaiterKind) (sameThreadPoolKind canDoChainedExecution : Bool)
    (status : CoroutineStatus) (shouldCancelAbandoned isCancelled : Bool) : SuspensionAdvice :=
  if status = .abandonedCompleted then .shouldNotSuspend
  else if kind ≠ .final ∧ sameThreadPoolKind = false then .shouldSuspend
  else if canDoChainedExecution = false then .shouldSuspend
  else if kind ≠ .final ∧ status = .abandoned ∧ shouldCancelAbandoned = true then .shouldNotSuspend
  else if kind ≠ .final ∧ isCancelled = true then .shouldNotSuspend
  else .maySuspend

theorem onReady_final {sameThreadPoolKind canDoChainedExecution : Bool}
    {status : CoroutineStatus} {shouldCancelAbandoned isCancelled : Bool} :
    final.onReady sameThreadPoolKind canDoChainedExecution status shouldCancelAbandoned
      isCancelled = .shouldNotSuspend ↔ status = .abandonedCompleted := by
  unfold onReady
  split_ifs <;> simp_all

theorem onSuspend_final {sameThreadPoolKind canDoChainedExecution : Bool}
    {status : CoroutineStatus} {shouldCancelAbandoned isCancelled : Bool} :
    final.onSuspend sameThreadPoolKind canDoChainedExecution status shouldCancelAbandoned
      isCancelled = .shouldNotSuspend ↔ status = .abandonedCompleted := by
  unfold onSuspend
  split_ifs <;> simp_all

end AwaiterKind

end LevelzAsync
