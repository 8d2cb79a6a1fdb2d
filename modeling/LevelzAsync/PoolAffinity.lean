import LevelzAsync.CoroutineStatus
import LevelzAsync.StepSystem
import Mathlib.Logic.Function.Basic

/-!
# Coroutines on the threads of two pools

Every thread has the stack of its calls into coroutines: a coroutine that is
created, a handle that the worker loop resumes, and a handle that a spinning
worker resumes in `ThreadPool::yield` under the call that spins. A handle returned
from an `await_suspend` replaces the top of the stack. A coroutine's kind and a
thread's pool never change, so one step is one member function of an awaiter, up
to its decision; what the function reads elsewhere is the label's choice, and
between two steps any thread may schedule any coroutine or request a status.
-/

namespace LevelzAsync.PoolAffinity

open CoroutineStatus

inductive ThreadPoolKind
  | current
  | default
  | background
  deriving DecidableEq

inductive Pool
  | default
  | background
  deriving DecidableEq

def Pool.kind : Pool → ThreadPoolKind
  | .default => .default
  | .background => .background

def Pool.noLocalWork (p : Pool) : Bool := p = .background

/-- `ThreadPool::threadPool`; `none` stands for `std::abort`. -/
def threadPool : ThreadPoolKind → Option Pool
  | .background => some .background
  | .default => some .default
  | .current => none

/-- `ThreadPool::currentThreadPoolKind` on a thread with `s_currentThreadPool = pool`. -/
def currentThreadPoolKind : Option Pool → ThreadPoolKind
  | none => .current
  | some p => p.kind

/-- `Coroutine::determineThreadPoolKind`, on the kind of the current coroutine. -/
def determineThreadPoolKind (requestedThreadPoolKind : ThreadPoolKind)
    (currentCoroutine : Option ThreadPoolKind) (currentThreadPool : Option Pool) :
    ThreadPoolKind :=
  match requestedThreadPoolKind with
  | .current =>
      match currentCoroutine, currentThreadPool with
      | some kind, _ => kind
      | none, some p => p.kind
      | none, none => .default
  | kind => kind

/-- An awaiter with the coroutine it was built with: the awaited task, or the
continuation that a yield or final awaiter has read. -/
inductive Awaiter (C : Type*)
  | initial
  | final (continuation : Option C)
  | yield (continuation : Option C)
  | task (taskCoroutine : C)
  | mutex
  | event
  | value
  | barrier
  | threadPool
  deriving DecidableEq

/-- How an `await_suspend` ends: the coroutine goes on, it stays suspended, another
one is scheduled, or the handle of another one is returned. -/
inductive Outcome (C : Type*)
  | self
  | stay
  | schedule (c : C)
  | transfer (c : C)
  deriving DecidableEq

section Awaiters

variable {C : Type*}

def Awaiter.kind : Awaiter C → AwaiterKind
  | .initial => .initial
  | .final _ => .final
  | .yield _ => .yield
  | .task _ => .task
  | .mutex => .mutex
  | .event => .event
  | .value => .value
  | .barrier => .barrier
  | .threadPool => .threadPool

/-- `await_ready` after `onReady`. `found` is what the awaiter then reads: the task is
done, the event is zero, the value is signaled, the mutex is cancelled or gets
locked, the barrier is cancelled or gets released. -/
def Awaiter.awaitReady (advice : SuspensionAdvice) (found : Bool) : Awaiter C → Bool
  | .initial => false
  | .final _ | .yield _ | .threadPool => advice = .shouldNotSuspend
  | .task _ => advice = .shouldNotSuspend ∨ found = true
  | .mutex | .event | .value | .barrier =>
      advice = .shouldNotSuspend ∨ advice = .maySuspend ∧ found = true

/-- Whom a yield or final awaiter, or a task awaiter, resumes. -/
def resumeOther (advice : SuspensionAdvice) (c : C) : Outcome C :=
  if advice = .shouldSuspend then .schedule c else .transfer c

/-- `await_suspend` after `onSuspend`, for the coroutine `c`. `found` says that `c` need
not wait: it was not put on the wait list, or the mutex is cancelled. A task
awaiter that does not go on at once is `State.markTask`. -/
def Awaiter.awaitSuspend (c : C) (advice : SuspensionAdvice) (found : Bool) :
    Awaiter C → Outcome C
  | .initial => if advice = .shouldNotSuspend then .self else .stay
  | .threadPool => if advice = .shouldNotSuspend then .self else .schedule c
  | .yield continuation =>
      if advice = .shouldNotSuspend then .self
      else continuation.elim .stay (resumeOther advice)
  | .final continuation => continuation.elim .stay (resumeOther advice)
  | .task _ => .self
  | .mutex | .event | .value | .barrier =>
      if advice = .shouldNotSuspend then .self
      else if found = false then .stay
      else if advice = .shouldSuspend then .schedule c
      else .self

end Awaiters

/-- Where a call into a coroutine stands: before `onReady`, before the rest of
`await_ready`, before `onSuspend`, before the rest of `await_suspend`, with the awaited
task marked, before `onResume`, before its `setStatus`, in its spin, in the body. -/
inductive Stage (C : Type*)
  | ready (a : Awaiter C)
  | advised (a : Awaiter C) (advice : SuspensionAdvice)
  | suspending (a : Awaiter C)
  | suspended (a : Awaiter C) (advice : SuspensionAdvice)
  | marked (taskCoroutine : C) (advice : SuspensionAdvice)
  | resuming (a : Awaiter C)
  | resumed
  | paused
  | body
  deriving DecidableEq

/-- One call into a coroutine. `restores` is the current coroutine that
`ThreadPool::yield` puts back when the call returns. -/
structure Frame (C : Type*) where
  coroutine : C
  stage : Stage C
  restores : Option (Option C)
  deriving DecidableEq

/-- `awaiter` is the one at which the handle is suspended. -/
structure Coroutine (C : Type*) where
  threadPoolKind : ThreadPoolKind
  taskKind : TaskKind
  status : CoroutineStatus
  awaiter : Option (Awaiter C)
  continuation : Option C

structure Thread (C : Type*) where
  currentThreadPool : Option Pool
  currentCoroutine : Option C
  localQueue : List C
  frames : List (Frame C)

/-- `assertFailed` records a failure of the assertion at the head of `onResume`, and
`aborted` the abort in `ThreadPool::threadPool`. -/
structure State (T C : Type*) where
  coroutine : C → Option (Coroutine C)
  thread : T → Thread C
  globalQueue : Pool → List C
  assertFailed : Bool
  aborted : Bool

/-- What the awaiters load besides the statuses. -/
structure Reads where
  canDoChainedExecution : Bool
  shouldCancelAbandoned : Bool
  isCancelled : Bool
  isImmediateShutdownRequested : Bool
  found : Bool
  deriving DecidableEq

inductive Action (T C : Type*)
  | create (t : T) (c : C) (taskKind : TaskKind) (requested : ThreadPoolKind) (reads : Reads)
  | await (t : T) (a : Awaiter C)
  | yield (t : T)
  | finish (t : T)
  | run (t : T) (reads : Reads)
  | work (t : T) (victim : Option T)
  | schedule (t : T) (c : C)
  | cancelTaskAwaiter (t : T) (taskCoroutine : C)
  | setStatus (c : C) (status : CoroutineStatus) (isFinalAwaiter : Bool)
  deriving DecidableEq

section Machine

variable {T C : Type*} [DecidableEq T] [DecidableEq C]

def State.kind (s : State T C) (c : C) : Option ThreadPoolKind :=
  (s.coroutine c).map Coroutine.threadPoolKind

def State.currentKind (s : State T C) (t : T) : ThreadPoolKind :=
  currentThreadPoolKind (s.thread t).currentThreadPool

def State.put (s : State T C) (t : T) (th : Thread C) : State T C :=
  { s with thread := Function.update s.thread t th }

def State.edit (s : State T C) (c : C) (g : Coroutine C → Coroutine C) : State T C :=
  { s with coroutine := Function.update s.coroutine c ((s.coroutine c).map g) }

def State.setCurrentCoroutine (s : State T C) (t : T) (c : Option C) : State T C :=
  s.put t { s.thread t with currentCoroutine := c }

/-- The call on top of the stack of `t`, which is `f`, goes on at `stage`. -/
def State.enter (s : State T C) (t : T) (f : Frame C) (rest : List (Frame C))
    (stage : Stage C) : State T C :=
  s.put t { s.thread t with frames := { f with stage := stage } :: rest }

/-- The call on top of the stack of `t`, which is `f`, returns. -/
def State.leave (s : State T C) (t : T) (f : Frame C) (rest : List (Frame C)) : State T C :=
  s.put t { s.thread t with
    frames := rest
    currentCoroutine := f.restores.getD (s.thread t).currentCoroutine }

/-- `Coroutine::schedule` on the thread `t`, with `ThreadPool::scheduleOnThreadPool`. -/
def State.schedule (s : State T C) (t : T) (c : C) : Option (State T C) :=
  (s.coroutine c).map fun r =>
    match threadPool r.threadPoolKind with
    | none => { s with aborted := true }
    | some p =>
        if (s.thread t).currentThreadPool ≠ some p ∨ p.noLocalWork = true then
          { s with globalQueue := Function.update s.globalQueue p (s.globalQueue p ++ [c]) }
        else
          s.put t { s.thread t with localQueue := (s.thread t).localQueue ++ [c] }

/-- Where `m_handle.resume()` goes on. A simple task has no awaiter of its own and
enters its body; a handle that is not suspended, or is done, cannot be resumed. -/
def Coroutine.resumePoint (r : Coroutine C) : Option (Stage C) :=
  match r.awaiter with
  | none | some (.final _) => none
  | some a => some (if r.taskKind = .simple then .body else .resuming a)

/-- The handle of `c` is resumed on `t`, on top of the calls in `rest`. -/
def State.resume (s : State T C) (t : T) (c : C) (restores : Option (Option C))
    (rest : List (Frame C)) : Option (State T C) :=
  ((s.coroutine c).bind Coroutine.resumePoint).map fun stage =>
    (s.edit c fun r => { r with awaiter := none }).put t
      { s.thread t with frames := ⟨c, stage, restores⟩ :: rest }

def State.scheduleAndLeave (s : State T C) (t : T) (f : Frame C) (rest : List (Frame C))
    (c : C) : Option (State T C) :=
  (s.schedule t c).map fun s' => s'.leave t f rest

/-- The end of an `await_suspend` of the awaiter `a`. -/
def State.conclude (s : State T C) (t : T) (f : Frame C) (rest : List (Frame C))
    (a : Awaiter C) : Outcome C → Option (State T C)
  | .self => some ((s.edit f.coroutine fun r => { r with awaiter := none }).enter t f rest
      (.resuming a))
  | .stay => some (s.leave t f rest)
  | .schedule c => s.scheduleAndLeave t f rest c
  | .transfer c =>
      if s.kind c = some (s.currentKind t) then s.resume t c f.restores rest
      else s.scheduleAndLeave t f rest c

/-- `TaskAwaiterBase::await_suspend` up to `justSetStatus`. -/
def State.markTask (s : State T C) (t : T) (f : Frame C) (rest : List (Frame C)) (c : C)
    (advice : SuspensionAdvice) : Option (State T C) :=
  (s.coroutine c).bind fun r =>
    if r.status = notStarted ∨ r.status = yieldedSuspended then
      some ((s.edit c fun r => { r with status := suspended }).enter t f rest (.marked c advice))
    else if r.status.isDone = true then s.conclude t f rest (.task c) .self
    else none

/-- `Awaiter::onReady`, with the awaiter's own reads. -/
def State.onReady (s : State T C) (t : T) (r : Coroutine C) (kind : AwaiterKind)
    (reads : Reads) : SuspensionAdvice :=
  kind.onReady (r.threadPoolKind = s.currentKind t) reads.canDoChainedExecution r.status
    reads.shouldCancelAbandoned reads.isCancelled

def State.onSuspend (s : State T C) (t : T) (r : Coroutine C) (kind : AwaiterKind)
    (reads : Reads) : SuspensionAdvice :=
  kind.onSuspend (r.threadPoolKind = s.currentKind t) reads.canDoChainedExecution r.status
    reads.shouldCancelAbandoned reads.isCancelled

/-- The constructor of a coroutine's promise. -/
def State.construct (s : State T C) (t : T) (taskKind : TaskKind)
    (requested : ThreadPoolKind) : Coroutine C where
  threadPoolKind := determineThreadPoolKind requested
    ((s.thread t).currentCoroutine.bind s.kind) (s.thread t).currentThreadPool
  taskKind := taskKind
  status := notStarted
  awaiter := some (if taskKind = .async ∨ taskKind = .sync then .threadPool else .initial)
  continuation := none

/-- A coroutine is constructed and comes to its initial suspension. No other thread has
its handle yet, so this is one step up to the advice of `onSuspend`. -/
def State.create (s : State T C) (t : T) (c : C) (taskKind : TaskKind)
    (requested : ThreadPoolKind) (reads : Reads) : Option (State T C) :=
  let r := s.construct t taskKind requested
  let s' := { s with coroutine := Function.update s.coroutine c (some r) }
  let reads := { reads with shouldCancelAbandoned := true, isCancelled := false }
  match s.coroutine c, taskKind with
  | some _, _ => none
  | none, .simple => some s'
  | none, _ =>
      r.awaiter.map fun a =>
        let stage :=
          if a.awaitReady (s.onReady t r a.kind reads) false = true then .resuming a
          else .suspended a (s.onSuspend t r a.kind reads)
        s'.put t { s.thread t with frames := ⟨c, stage, none⟩ :: (s.thread t).frames }

/-- The next member function of the awaiter in the call on top of the stack. -/
def State.run (s : State T C) (t : T) (f : Frame C) (rest : List (Frame C))
    (r : Coroutine C) (reads : Reads) : Option (State T C) :=
  match f.stage with
  | .ready a =>
      let s' := if a.kind = .final then s.setCurrentCoroutine t none else s
      some (s'.enter t f rest (.advised a (s.onReady t r a.kind reads)))
  | .advised a advice =>
      if a.awaitReady advice reads.found = true then
        match a with
        | .final none => some (s.leave t f rest)
        | .final (some continuation) => s.scheduleAndLeave t f rest continuation
        | a => some (s.enter t f rest (.resuming a))
      else some (s.enter t f rest (.suspending a))
  | .suspending a =>
      (setStatus (a.kind = .final) r.status suspended).map fun status =>
        let s' := if (s.thread t).currentCoroutine = some f.coroutine then
            s.setCurrentCoroutine t none else s
        (s'.edit f.coroutine fun r => { r with status := status, awaiter := some a }).enter t f
          rest (.suspended a (s.onSuspend t r a.kind reads))
  | .suspended (.task c) advice =>
      if advice = .shouldNotSuspend then s.conclude t f rest (.task c) .self
      else s.markTask t f rest c advice
  | .suspended a advice =>
      s.conclude t f rest a (a.awaitSuspend f.coroutine advice reads.found)
  | .marked c advice =>
      (s.edit c fun r => { r with continuation := some f.coroutine }).conclude t f rest (.task c)
        (resumeOther advice c)
  | .resuming a =>
      let s' := { s with
        assertFailed := s.assertFailed || decide (r.threadPoolKind ≠ s.currentKind t) }
      let s' := match a with
        | .task c => s'.edit c fun r => { r with continuation := none }
        | _ => s'
      some ((s'.setCurrentCoroutine t (some f.coroutine)).enter t f rest .resumed)
  | .resumed =>
      -- a thrown `CancellationError` is caught in the body or ends it
      if reads.isImmediateShutdownRequested = true then some (s.enter t f rest .body)
      else
        (setStatus false r.status running).map fun status =>
          (s.edit f.coroutine fun r => { r with status := status }).enter t f rest
            (if r.status = pauseOnRunning then .paused else .body)
  | .paused => if r.status = paused then none else some (s.enter t f rest .body)
  | .body => none

/-- A `TaskAwaiter` is built for a `Task` only. -/
def State.awaitable (s : State T C) : Awaiter C → Bool
  | .task c => (s.coroutine c).map Coroutine.taskKind = some .task
  | _ => true

/-- What a body does with its next suspension. -/
def State.bodyStep (s : State T C) (t : T) (f : Frame C) (rest : List (Frame C))
    (r : Coroutine C) : Action T C → Option (State T C)
  | .await _ a =>
      if r.taskKind ≠ .simple ∧ a.kind.isBlocking = true ∧ s.awaitable a = true then
        some (s.enter t f rest (.ready a))
      else none
  | .yield _ =>
      if r.taskKind = .task then
        (setStatus false r.status yielded).map fun status =>
          (s.edit f.coroutine fun r => { r with status := status }).enter t f rest
            (.ready (.yield r.continuation))
      else none
  | .finish _ =>
      if r.taskKind = .simple then some (s.leave t f rest)
      else
        (setStatus false r.status returned).map fun status =>
          (s.edit f.coroutine fun r => { r with status := status, continuation := none }).enter
            t f rest (.ready (.final r.continuation))
  | _ => none

def State.dequeue (s : State T C) (t : T) (p : Pool) : Option T → Option (C × State T C)
  | none =>
      match s.globalQueue p with
      | [] => none
      | c :: q => some (c, { s with globalQueue := Function.update s.globalQueue p q })
  | some u =>
      if (s.thread u).currentThreadPool = some p ∧ (u = t ∨ p.noLocalWork = false) then
        match (s.thread u).localQueue with
        | [] => none
        | c :: q => some (c, s.put u { s.thread u with localQueue := q })
      else none

/-- A worker takes a coroutine, in its loop or in `ThreadPool::yield` under a call. -/
def State.work (s : State T C) (t : T) (victim : Option T) : Option (State T C) :=
  ((s.thread t).currentThreadPool.bind fun p => s.dequeue t p victim).bind fun (c, s') =>
    s'.resume t c
      (if (s.thread t).frames = [] then none else some (s.thread t).currentCoroutine)
      (s.thread t).frames

/-- The top of the stack of `t` and the coroutine there. -/
def State.top (s : State T C) (t : T) : Option (Frame C × List (Frame C) × Coroutine C) :=
  match (s.thread t).frames with
  | [] => none
  | f :: rest => (s.coroutine f.coroutine).map fun r => (f, rest, r)

def State.body (s : State T C) (t : T) (a : Action T C) : Option (State T C) :=
  (s.top t).bind fun (f, rest, r) =>
    if f.stage = .body then s.bodyStep t f rest r a else none

def act (s : State T C) : Action T C → Option (State T C)
  | .create t c taskKind requested reads =>
      if (s.thread t).currentThreadPool = none ∨ (s.thread t).frames ≠ [] then
        s.create t c taskKind requested reads
      else none
  | .await t a => s.body t (.await t a)
  | .yield t => s.body t (.yield t)
  | .finish t => s.body t (.finish t)
  | .run t reads => (s.top t).bind fun (f, rest, r) => s.run t f rest r reads
  | .work t victim => s.work t victim
  | .schedule t c => s.schedule t c
  | .cancelTaskAwaiter t c =>
      ((s.coroutine c).bind Coroutine.continuation).bind fun continuation =>
        (s.edit c fun r => { r with continuation := none }).schedule t continuation
  | .setStatus c status isFinalAwaiter =>
      (s.coroutine c).bind fun r =>
        (setStatus isFinalAwaiter r.status status).map fun status =>
          s.edit c fun r => { r with status := status }

/-- Threads of any pools and outside threads, before the first coroutine is created. -/
def system (T C : Type*) [DecidableEq T] [DecidableEq C] :
    StepSystem (State T C) (Action T C) where
  start s := (∀ c, s.coroutine c = none) ∧ (∀ p, s.globalQueue p = []) ∧
    (∀ t, (s.thread t).currentCoroutine = none ∧ (s.thread t).localQueue = [] ∧
      (s.thread t).frames = []) ∧ s.assertFailed = false ∧ s.aborted = false
  step s a := if s.aborted = true then none else act s a

end Machine

end LevelzAsync.PoolAffinity
