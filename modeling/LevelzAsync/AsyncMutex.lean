import LevelzAsync.StepSystem
import Mathlib.Data.List.Count

/-!
# The asynchronous mutex at the level of its atomic operations

Coroutines go through `AsyncMutexAwaiter`, threads through the calls of
`AsyncMutex`. The wait list is the atomic queue that `ConcurrentFifoList` was
shown to be, so an `enqueue` or a `dequeue` is one step. A flag of a coroutine,
once set, stays set: `isCancelled`, and the abandonment of a coroutine that
cancels when abandoned. The other statuses are no part of the state, so the wait of `onResume`
while a call of `cancel` holds the coroutine in `Paused` is left out.
-/

namespace LevelzAsync.AsyncMutex

variable {Thread Co : Type*}

/-- The next step of a coroutine in `AsyncMutexAwaiter`, or with its lock. -/
inductive CoPc
  | outside
  | readyAbandoned
  | readyCancelled
  | readyMutex
  | tryLoad
  | tryCas
  | suspendCancelled
  | suspendStatus (isCancelled : Bool)
  | suspendMutex
  | suspendMark
  | callLock
  | waiting
  | resumeCancelled
  | resumeMutex
  | resumeMark
  | onResumeShutdown
  | onResumeAbandoned
  | onResumeCancelled
  | holding
  | throwing
  | unlocking
  deriving DecidableEq

/-- Who called `AsyncMutex::lock`. -/
inductive Caller (Co : Type*)
  | awaiter
  | unlock (c : Co)
  | remove (c : Co) (removed : Bool)
  deriving DecidableEq

/-- Which loop is emptying the wait list of a cancelled mutex: the owner's
before or after it has released the mutex, or that of `AsyncMutex::cancel`. -/
inductive Drain (Co : Type*)
  | owned (c : Co)
  | released (c : Co)
  | cancel
  deriving DecidableEq

/-- The next step of a thread inside a call. -/
inductive Call (Co : Type*)
  | idle
  | lockLoad (next : Co) (caller : Caller Co)
  | lockEnqueue (next : Co) (caller : Caller Co)
  | lockReload (caller : Caller Co)
  | lockDequeue (caller : Caller Co)
  | lockCas (next : Co) (caller : Caller Co)
  | lockSchedule (next : Co) (caller : Caller Co)
  | unlockLoad (c : Co)
  | unlockStranger (c : Co)
  | unlockMarkStranger (c : Co)
  | unlockCancelled (c : Co)
  | unlockMark (c : Co)
  | unlockRelease (c : Co)
  | unlockDequeue (c : Co)
  | unlockClear (c : Co)
  | unlockDequeueAgain (c : Co)
  | handOff (c next : Co)
  | handSchedule (c next : Co)
  | drainDequeue (drain : Drain Co)
  | drainMark (drain : Drain Co) (next : Co)
  | drainSchedule (drain : Drain Co) (next : Co)
  | cancelMark
  | removeCount (c : Co)
  | removeDequeue (c : Co) (left : ℕ)
  | removeEnqueue (c node : Co) (left : ℕ)
  | removeCheckOwner (c : Co) (removed : Bool)
  | removeDequeueNext (c : Co) (removed : Bool)
  | removeSchedule (c : Co)
  deriving DecidableEq

structure State (Thread Co : Type*) where
  owner : Option Co
  cancelled : Bool
  waitList : List Co
  coCancelled : Co → Bool
  coAbandoned : Co → Bool
  co : Co → CoPc
  call : Thread → Call Co
  /-- The coroutine has called `lock`. -/
  asked : Co → Bool
  /-- How often the coroutine was scheduled since its last call of `lock`. -/
  schedules : Co → ℕ

/-- `await`, `lock` and `unlock` are steps of a coroutine that begin an await or
a call of the mutex in the thread that runs it; `mayChain` says that the
coroutine runs on its own pool with chained executions left, `shutdown` that the
pool is asked to shut down, `bound` is the count that `remove` reads. -/
inductive Action (Thread Co : Type*)
  | await (c : Co)
  | co (c : Co) (mayChain spurious shutdown : Bool)
  | lock (c : Co) (t : Thread)
  | unlock (c : Co) (t : Thread)
  | setCancelled (c : Co)
  | setAbandoned (c : Co)
  | cancel (t : Thread)
  | remove (c : Co) (t : Thread)
  | call (t : Thread) (spurious : Bool) (bound : ℕ)

variable [DecidableEq Thread] [DecidableEq Co]

namespace State

def goCo (s : State Thread Co) (c : Co) (p : CoPc) : State Thread Co :=
  { s with co := Function.update s.co c p }

def goCall (s : State Thread Co) (t : Thread) (p : Call Co) : State Thread Co :=
  { s with call := Function.update s.call t p }

def mark (s : State Thread Co) (c : Co) : State Thread Co :=
  { s with coCancelled := Function.update s.coCancelled c true }

/-- `Coroutine::schedule`: the coroutine goes on in `await_resume`. Resuming a
coroutine that is not suspended has no defined behaviour. -/
def schedule (s : State Thread Co) (c : Co) : State Thread Co :=
  { s with
    co := if s.co c = .waiting then Function.update s.co c .resumeCancelled else s.co
    schedules := Function.update s.schedules c (s.schedules c + 1) }

def returnLock (s : State Thread Co) (t : Thread) : Caller Co → State Thread Co
  | .awaiter => s.goCall t .idle
  | .unlock c => (s.goCall t .idle).goCo c .outside
  | .remove c removed => s.goCall t (if removed = true then .removeSchedule c else .idle)

end State

/-- `await_ready`, `await_suspend` and `await_resume` of `AsyncMutexAwaiter`. -/
def coStep (s : State Thread Co) (c : Co) (mayChain spurious shutdown : Bool) :
    CoPc → Option (State Thread Co)
  | .readyAbandoned =>
      some (s.goCo c (if mayChain = false then .suspendCancelled
        else if s.coAbandoned c = true then .resumeCancelled else .readyCancelled))
  | .readyCancelled =>
      some (s.goCo c (if s.coCancelled c = true then .resumeCancelled else .readyMutex))
  | .readyMutex => some (s.goCo c (if s.cancelled = true then .resumeCancelled else .tryLoad))
  | .tryLoad => some (s.goCo c (if s.owner = none then .tryCas else .suspendCancelled))
  | .tryCas =>
      if s.owner = none then
        some (if spurious = true then s.goCo c .tryCas
          else { s.goCo c .resumeCancelled with owner := some c })
      else some (s.goCo c .suspendCancelled)
  | .suspendCancelled => some (s.goCo c (.suspendStatus (s.coCancelled c)))
  | .suspendStatus isCancelled =>
      some (s.goCo c (if mayChain = true ∧ (s.coAbandoned c = true ∨ isCancelled = true) then
        .resumeCancelled else .suspendMutex))
  | .suspendMutex => some (s.goCo c (if s.cancelled = true then .suspendMark else .callLock))
  | .suspendMark => some ((s.mark c).goCo c .resumeCancelled)
  | .resumeCancelled =>
      some (s.goCo c (if s.coCancelled c = true then .onResumeShutdown else .resumeMutex))
  | .resumeMutex =>
      some (s.goCo c (if s.cancelled = true then .resumeMark else .onResumeShutdown))
  | .resumeMark => some ((s.mark c).goCo c .onResumeShutdown)
  | .onResumeShutdown =>
      some (if shutdown = true then (s.mark c).goCo c .throwing else s.goCo c .onResumeAbandoned)
  | .onResumeAbandoned =>
      some (s.goCo c (if s.coAbandoned c = true then .throwing else .onResumeCancelled))
  | .onResumeCancelled =>
      some (s.goCo c (if s.coCancelled c = true then .throwing else .holding))
  | _ => none

/-- The calls of `AsyncMutex`, and `AsyncMutexAwaiter::cancel` around `remove`. -/
def callStep (s : State Thread Co) (t : Thread) (spurious : Bool) (bound : ℕ) :
    Call Co → Option (State Thread Co)
  | .lockLoad next caller =>
      some (s.goCall t (if s.owner = none then .lockCas next caller else .lockEnqueue next caller))
  | .lockEnqueue next caller =>
      some { s.goCall t (.lockReload caller) with waitList := s.waitList ++ [next] }
  | .lockReload caller =>
      some (if s.owner = none then s.goCall t (.lockDequeue caller) else s.returnLock t caller)
  | .lockDequeue caller =>
      some (match s.waitList with
        | next :: rest => { s.goCall t (.lockCas next caller) with waitList := rest }
        | [] => s.returnLock t caller)
  | .lockCas next caller =>
      some (if s.owner = none then
          if spurious = true then s.goCall t (.lockCas next caller)
          else { s.goCall t (.lockSchedule next caller) with owner := some next }
        else s.goCall t (.lockEnqueue next caller))
  | .lockSchedule next caller => some ((s.schedule next).returnLock t caller)
  | .unlockLoad c =>
      some (s.goCall t (if s.owner = some c then .unlockCancelled c else .unlockStranger c))
  | .unlockStranger c =>
      some (if s.cancelled = true then s.goCall t (.unlockMarkStranger c)
        else (s.goCall t .idle).goCo c .outside)
  | .unlockMarkStranger c => some (((s.mark c).goCall t .idle).goCo c .outside)
  | .unlockCancelled c =>
      some (s.goCall t (if s.cancelled = true then .unlockMark c else .unlockDequeue c))
  | .unlockMark c => some ((s.mark c).goCall t (.drainDequeue (.owned c)))
  | .unlockRelease c =>
      some { s.goCall t (.drainDequeue (.released c)) with owner := none }
  | .unlockDequeue c =>
      some (match s.waitList with
        | next :: rest => { s.goCall t (.handOff c next) with waitList := rest }
        | [] => s.goCall t (.unlockClear c))
  | .unlockClear c => some { s.goCall t (.unlockDequeueAgain c) with owner := none }
  | .unlockDequeueAgain c =>
      some (match s.waitList with
        | next :: rest => { s.goCall t (.lockLoad next (.unlock c)) with waitList := rest }
        | [] => (s.goCall t .idle).goCo c .outside)
  | .handOff c next => some { s.goCall t (.handSchedule c next) with owner := some next }
  | .handSchedule c next => some (((s.schedule next).goCall t .idle).goCo c .outside)
  | .drainDequeue drain =>
      some (match s.waitList with
        | next :: rest => { s.goCall t (.drainMark drain next) with waitList := rest }
        | [] =>
          match drain with
          | .owned c => s.goCall t (.unlockRelease c)
          | .released c => (s.goCall t .idle).goCo c .outside
          | .cancel => s.goCall t .idle)
  | .drainMark drain next => some ((s.mark next).goCall t (.drainSchedule drain next))
  | .drainSchedule drain next => some ((s.schedule next).goCall t (.drainDequeue drain))
  | .cancelMark => some { s.goCall t (.drainDequeue .cancel) with cancelled := true }
  | .removeCount c => some (s.goCall t (.removeDequeue c bound))
  | .removeDequeue c left =>
      some (match left with
        | 0 => s.goCall t (.removeCheckOwner c false)
        | left + 1 =>
          match s.waitList with
          | [] => s.goCall t (.removeCheckOwner c false)
          | node :: rest =>
            { s.goCall t (if node = c then .removeCheckOwner c true
                else .removeEnqueue c node left) with waitList := rest })
  | .removeEnqueue c node left =>
      some { s.goCall t (.removeDequeue c left) with waitList := s.waitList ++ [node] }
  | .removeCheckOwner c removed =>
      some (if s.owner = none then s.goCall t (.removeDequeueNext c removed)
        else s.goCall t (if removed = true then .removeSchedule c else .idle))
  | .removeDequeueNext c removed =>
      some (match s.waitList with
        | next :: rest =>
          { s.goCall t (.lockLoad next (.remove c removed)) with waitList := rest }
        | [] => s.goCall t (if removed = true then .removeSchedule c else .idle))
  | .removeSchedule c => some ((s.schedule c).goCall t .idle)
  | .idle => none

def step (s : State Thread Co) : Action Thread Co → Option (State Thread Co)
  | .await c =>
      if s.co c = .outside then some (s.goCo c .readyAbandoned) else none
  | .co c mayChain spurious shutdown => coStep s c mayChain spurious shutdown (s.co c)
  | .lock c t =>
      if s.co c = .callLock ∧ s.call t = .idle then
        some { (s.goCo c .waiting).goCall t (.lockLoad c .awaiter) with
          asked := Function.update s.asked c true
          schedules := Function.update s.schedules c 0 }
      else none
  | .unlock c t =>
      if (s.co c = .holding ∨ s.co c = .throwing) ∧ s.call t = .idle then
        some ((s.goCo c .unlocking).goCall t (.unlockLoad c))
      else none
  | .setCancelled c => some (s.mark c)
  | .setAbandoned c => some { s with coAbandoned := Function.update s.coAbandoned c true }
  | .cancel t => if s.call t = .idle then some (s.goCall t .cancelMark) else none
  | .remove c t =>
      if s.coCancelled c = true ∧ s.call t = .idle then some (s.goCall t (.removeCount c))
      else none
  | .call t spurious bound => callStep s t spurious bound (s.call t)

def initial (coCancelled coAbandoned : Co → Bool) : State Thread Co where
  owner := none
  cancelled := false
  waitList := []
  coCancelled := coCancelled
  coAbandoned := coAbandoned
  co _ := .outside
  call _ := .idle
  asked _ := false
  schedules _ := 0

def system (Thread Co : Type*) [DecidableEq Thread] [DecidableEq Co] :
    StepSystem (State Thread Co) (Action Thread Co) where
  start s := ∃ coCancelled coAbandoned, s = initial coCancelled coAbandoned
  step := step

end LevelzAsync.AsyncMutex
