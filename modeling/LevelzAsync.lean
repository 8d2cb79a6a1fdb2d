import LevelzAsync.StepSystem
import LevelzAsync.ConcurrentFifoList
import LevelzAsync.FifoChain
import LevelzAsync.FifoOrder
import LevelzAsync.CoroutineStatus
import LevelzAsync.Lifecycle
import LevelzAsync.LifecycleInvariant
import LevelzAsync.LifecycleFrame
import LevelzAsync.AsyncMutex
import LevelzAsync.AsyncMutexInvariant
import LevelzAsync.AsyncMutexSafety
import LevelzAsync.TaskAwait
import LevelzAsync.TaskResumption
import LevelzAsync.Ownership
import LevelzAsync.OwnershipCounts
import LevelzAsync.PointerForest
import LevelzAsync.OwnershipTree
import LevelzAsync.EventCancellation
import LevelzAsync.CountDownEvent
import LevelzAsync.CountDownEventWaits
import LevelzAsync.CountDownEventWakeUps
import LevelzAsync.AsyncBarrier
import LevelzAsync.AsyncBarrierInvariant
import LevelzAsync.AsyncBarrierRounds
import LevelzAsync.AsyncBarrierRuns
import LevelzAsync.AsyncBarrierSafety
import LevelzAsync.Generator
import LevelzAsync.GeneratorStatuses
import LevelzAsync.ImmediateShutdown
import LevelzAsync.GeneratorSequence
import LevelzAsync.PoolAffinity
import LevelzAsync.PoolAffinityInvariant
import LevelzAsync.ThreadPool
import LevelzAsync.ThreadPoolSteps
import LevelzAsync.ThreadPoolInvariant
import LevelzAsync.ThreadPoolWakeUps
import LevelzAsync.ThreadPoolShutdown
import LevelzAsync.ThreadPoolIdle
import LevelzAsync.Monitor
import LevelzAsync.SyncManualResetEvent
import LevelzAsync.SyncAutoResetEvent
import LevelzAsync.SyncAutoResetEventSignals
import LevelzAsync.SyncAutoResetEventReturns
import LevelzAsync.AbandonedGenerator
import LevelzAsync.CancelHandshake
import LevelzAsync.ConcurrentCancels
import LevelzAsync.EventDestruction
import LevelzAsync.ChainedEvents
import LevelzAsync.MutexDestruction
import LevelzAsync.AwaitSuspend
import LevelzAsync.AwaitSuspendSafety
import LevelzAsync.ThreadPoolCounters
import LevelzAsync.ThreadPoolLeaving
import LevelzAsync.ThreadPoolShutdownReturns
import LevelzAsync.AsyncScopeTracker
import LevelzAsync.FifoList
import LevelzAsync.TaskHandles
import LevelzAsync.FifoObservers
import LevelzAsync.FifoRemovals
import LevelzAsync.AsyncMutexOrder
import LevelzAsync.ChainedExecution
import LevelzAsync.ChainedExecutionBound
import LevelzAsync.FifoProgress
import LevelzAsync.AsyncBarrierCompletion
import LevelzAsync.AsyncMutexTurns
import LevelzAsync.AsyncMutexCompletion
import LevelzAsync.OwnershipCompletion
import LevelzAsync.CountDownEventReturns
import LevelzAsync.CurrentCoroutine
import LevelzAsync.NestedResumption
import LevelzAsync.ThreadPoolOrder
import LevelzAsync.LifecycleDone
import LevelzAsync.SyncTaskGet
import LevelzAsync.SyncTaskGetSafety
import LevelzAsync.SyncTaskGetReturns
import LevelzAsync.SyncAutoResetCountDownEvent
import LevelzAsync.AsyncValue
import LevelzAsync.AsyncValueSafety
import LevelzAsync.AsyncValueReturns
import LevelzAsync.CoroutineCalls
