import LevelzAsync.SyncAutoResetEvent
import Mathlib.Logic.Function.Basic

/-!
# One thread pool

The worker loop `runWorkerThread` with the calls of `wakeOneThread`,
`processPendingWakeUps`, `tryGetWork` and `SyncAutoResetEvent::wait` that it makes, the
calls of `scheduleOnThreadPool` by threads that are not workers of the pool, and
`shutdown`. One step is one access to a queue, to a counter, to a flag or to the
state word of a wake-up event; enqueue and dequeue of a queue are one step each.
A step of a worker gives the worker's next record and one effect on what the
threads share; which random choices a thread makes is the label's choice.

The body of a coroutine schedules, comes to `Awaiter::onReady`, spins in
`ThreadPool::yield` or returns control, in any order. A coroutine that is scheduled
is suspended, so it was resumed since it was scheduled last.
-/

namespace LevelzAsync.ThreadPool

open SyncAutoResetEvent (EventState)

inductive Phase
  | started
  | shuttingDown
  | shuttingDownImmediately
  | terminated
  deriving DecidableEq

/-- Who calls: a worker of the pool, or a thread with another `s_currentThreadPool`, of
which `noLocalWork()` matters. -/
inductive Caller
  | own
  | foreign (currentThreadPool : Option Bool)
  deriving DecidableEq

/-- `processPendingWakeUps` up to its call of `wakeOneThread()`; that function up to its
loop `wakeOneThread(doImmediateWakeUp)`; the loop; and what follows it. -/
inductive WakePc (n : ℕ)
  | loadPending
  | takePending (count : ℕ)
  | chooseImmediate
  | checkSleepingCount (immediate : Bool) (i : ℕ)
  | checkSleeping (immediate : Bool) (i : Fin n)
  | setEvent (immediate : Bool) (i : Fin n)
  | recheckSleepingCount
  | checkAllSleeping
  | checkPending
  | loadRequests
  | compareRequests (count : ℕ)
  | addRequest (count : ℕ)
  deriving DecidableEq

/-- The next step of a worker. `first` says that `tryGetRemote` comes before
`tryLocalPop`, `i` counts the checks before sleep, `j` the attempts to steal, and
`woken` says that `setSleeping(false)` follows a sleep and not `normal_processing`. The
two return statements of `runWorkerThread` are told apart. -/
inductive Pc (n : ℕ)
  | top
  | globalDequeue (first : Bool)
  | steal (first : Bool) (j : ℕ)
  | localPop (remoteTried : Bool)
  | spinDequeue (i : ℕ)
  | spinSteal (i j : ℕ)
  | spinState (i : ℕ)
  | spinPending
  | setSleeping
  | countSleeping
  | beforeSleep
  | waitExchange
  | waitLocked
  | waiting
  | clearEvent
  | afterSleep
  | clearSleeping (woken : Bool)
  | uncountSleeping (woken : Bool)
  | checkNobodySleeps (woken : Bool)
  | clearPending (woken : Bool)
  | normalProcessing
  | wake (pc : WakePc n)
  | resume
  | body
  | returnedAtTop
  | returnedInSpin
  deriving DecidableEq

/-- A worker thread and its `ThreadState`. `hand` is the local variable `coroutine`, and
`running` the coroutines that the thread is resuming, the innermost one first. -/
structure Worker (n : ℕ) (C : Type*) where
  pc : Pc n
  hand : Option C
  running : List C
  isSleeping : Bool
  wakeUpEvent : EventState
  localQueue : List C
  deriving DecidableEq

inductive Effect (n : ℕ) (C : Type*)
  | quiet
  | mayBeSleeping (up : Bool)
  | sleeping (up : Bool)
  | pending (count : ℕ)
  | setEvent (i : Fin n)
  | takeGlobal (c : C)
  | takeLocal (victim : Fin n) (c : C)
  | globalEnqueue (c : C)
  | localEnqueue (w : Fin n) (c : C)
  | resume (c : C)
  deriving DecidableEq

inductive Closer (n : ℕ)
  | notCalled
  | checkSleeping (i : ℕ)
  | setEvent (i : Fin n)
  | returned
  deriving DecidableEq

/-- The wake-up calls of threads that are not workers are in `outside`. How often each
coroutine was scheduled and resumed is counted beside the pool. -/
structure State (n : ℕ) (O C : Type*) where
  worker : Fin n → Worker n C
  outside : O → Option (WakePc n)
  globalQueue : List C
  mayBeSleepingThreadCount : ℕ
  sleepingThreadCount : ℕ
  pendingWakeUpRequestCount : ℕ
  phase : Phase
  closer : Closer n
  scheduled : C → ℕ
  resumed : C → ℕ

/-- The parameters of the constructor, and the threads that call from outside. -/
structure Config (n : ℕ) (O : Type*) where
  threadCount_pos : 0 < n
  noLocalWork : Bool
  currentThreadPool : O → Option Bool

/-- A worker goes on by itself, with a random bit or the outcome of a `try_lock` or a weak
exchange and with a random victim; or the body that runs on it does something. -/
inductive Choice (n : ℕ) (C : Type*)
  | go (b : Bool) (victim : Fin n)
  | schedule (c : C)
  | onReady
  | yield (b : Bool)
  | finish
  deriving DecidableEq

inductive Action (n : ℕ) (O C : Type*)
  | worker (w : Fin n) (choice : Choice n C)
  | schedule (o : O) (c : C)
  | caller (o : O) (b : Bool)
  | shutdown (immediately : Bool)
  | closer
  deriving DecidableEq

def numRemoteWorksChecksBeforeSleep : ℕ := 32

section Worker

variable {n : ℕ} {C : Type*}

def Worker.go (k : Worker n C) (pc : Pc n) : Worker n C := { k with pc := pc }

/-- A call of the wake-up functions returns: to the resumption of the coroutine in hand,
to the loop, or to the body that called. -/
def Worker.afterWake (k : Worker n C) : Worker n C :=
  k.go (if k.hand.isSome = true then .resume else if k.running.isEmpty = true then .top else .body)

/-- `tryGetWork` returns `c`, to the loop or to `ThreadPool::yield`. -/
def Worker.gotWork (k : Worker n C) (c : C) : Worker n C :=
  { k with hand := some c, pc := if k.running.isEmpty = true then .wake .loadPending else .resume }

def Worker.gotNoWork (k : Worker n C) : Worker n C :=
  k.go (if k.running.isEmpty = true then .spinDequeue 0 else .body)

def Worker.gotNoRemote (k : Worker n C) (first : Bool) : Worker n C :=
  if first = true then k.go (.localPop true) else k.gotNoWork

def Worker.spinNext (k : Worker n C) (i : ℕ) : Worker n C :=
  k.go (if i < numRemoteWorksChecksBeforeSleep then .spinState i else .spinPending)

def Worker.afterClear (k : Worker n C) (woken : Bool) : Worker n C :=
  if woken = true then k.go (.spinDequeue 0) else k.afterWake

/-- The begin of `tryGetWork`; `b` is the random choice of remote work. -/
def Worker.tryGetWork (k : Worker n C) (noLocalWork b : Bool) : Worker n C :=
  k.go (if noLocalWork = true ∨ b = true then .globalDequeue true else .localPop false)

end Worker

section Machine

variable {n : ℕ} {O C : Type*} [DecidableEq O] [DecidableEq C]

def State.setWorker (s : State n O C) (w : Fin n) (k : Worker n C) : State n O C :=
  { s with worker := Function.update s.worker w k }

def State.setLocalQueue (s : State n O C) (w : Fin n) (q : List C) : State n O C :=
  s.setWorker w { s.worker w with localQueue := q }

def State.apply (s : State n O C) : Effect n C → State n O C
  | .quiet => s
  | .mayBeSleeping true => { s with mayBeSleepingThreadCount := s.mayBeSleepingThreadCount + 1 }
  | .mayBeSleeping false => { s with mayBeSleepingThreadCount := s.mayBeSleepingThreadCount - 1 }
  | .sleeping true => { s with sleepingThreadCount := s.sleepingThreadCount + 1 }
  | .sleeping false => { s with sleepingThreadCount := s.sleepingThreadCount - 1 }
  | .pending count => { s with pendingWakeUpRequestCount := count }
  | .setEvent i => s.setWorker i { s.worker i with wakeUpEvent := .set }
  | .takeGlobal _ => { s with globalQueue := s.globalQueue.tail }
  | .takeLocal victim _ => s.setLocalQueue victim (s.worker victim).localQueue.tail
  | .globalEnqueue c =>
      { s with
        globalQueue := s.globalQueue ++ [c]
        scheduled := Function.update s.scheduled c (s.scheduled c + 1) }
  | .localEnqueue w c =>
      { s.setLocalQueue w ((s.worker w).localQueue ++ [c]) with
        scheduled := Function.update s.scheduled c (s.scheduled c + 1) }
  | .resume c => { s with resumed := Function.update s.resumed c (s.resumed c + 1) }

def doImmediateWakeUp (cfg : Config n O) (mayBeSleepingThreadCount : ℕ) : Caller → Bool
  | .own => cfg.noLocalWork
  | .foreign none => true
  | .foreign (some noLocalWork) => noLocalWork || mayBeSleepingThreadCount = n

/-- A step of a wake-up call; no next step is its return. `b` is the outcome of
`try_lock`, or says that a weak exchange does not fail spuriously. -/
def wakeStep (cfg : Config n O) (s : State n O C) (caller : Caller) (b : Bool) :
    WakePc n → Option (WakePc n) × Effect n C
  | .loadPending =>
      if s.pendingWakeUpRequestCount = 0 then (none, .quiet)
      else (some (.takePending s.pendingWakeUpRequestCount), .quiet)
  | .takePending count =>
      if s.pendingWakeUpRequestCount = count ∧ b = true then
        (some .chooseImmediate, .pending (count - 1))
      else if s.pendingWakeUpRequestCount = 0 then (none, .quiet)
      else (some (.takePending s.pendingWakeUpRequestCount), .quiet)
  | .chooseImmediate =>
      (some (.checkSleepingCount (doImmediateWakeUp cfg s.mayBeSleepingThreadCount caller) 0),
        .quiet)
  | .checkSleepingCount immediate i =>
      if h : i < n then
        if s.mayBeSleepingThreadCount = 0 then (none, .quiet)
        else (some (.checkSleeping immediate ⟨i, h⟩), .quiet)
      else (if immediate = true then none else some .recheckSleepingCount, .quiet)
  | .checkSleeping immediate i =>
      if (s.worker i).isSleeping = true then (some (.setEvent immediate i), .quiet)
      else (some (.checkSleepingCount immediate (i + 1)), .quiet)
  | .setEvent immediate i =>
      if immediate = true ∨ b = true then (none, .setEvent i)
      else (some (.checkSleepingCount immediate (i + 1)), .quiet)
  | .recheckSleepingCount =>
      if s.mayBeSleepingThreadCount = 0 then (none, .quiet) else (some .checkAllSleeping, .quiet)
  | .checkAllSleeping =>
      match caller with
      | .foreign (some _) =>
          if s.mayBeSleepingThreadCount = n then (some .checkPending, .quiet)
          else (some .loadRequests, .quiet)
      | _ => (some .loadRequests, .quiet)
  | .checkPending =>
      if 0 < s.pendingWakeUpRequestCount then (some (.checkSleepingCount true 0), .quiet)
      else (some .loadRequests, .quiet)
  | .loadRequests => (some (.compareRequests s.pendingWakeUpRequestCount), .quiet)
  | .compareRequests count =>
      if s.mayBeSleepingThreadCount ≤ count then (none, .quiet)
      else (some (.addRequest count), .quiet)
  | .addRequest count =>
      if s.pendingWakeUpRequestCount = count ∧ b = true then (none, .pending (count + 1))
      else (some (.compareRequests s.pendingWakeUpRequestCount), .quiet)

/-- A step of `runWorkerThread` outside the bodies, for the worker `w` with the record `k`. -/
def goStep (cfg : Config n O) (s : State n O C) (w : Fin n) (k : Worker n C) (b : Bool)
    (victim : Fin n) : Option (Worker n C × Effect n C) :=
  match k.pc with
  | .top =>
      if s.phase = .shuttingDownImmediately then some (k.go .returnedAtTop, .quiet)
      else some (k.tryGetWork cfg.noLocalWork b, .quiet)
  | .globalDequeue first =>
      match s.globalQueue with
      | c :: _ => some (k.gotWork c, .takeGlobal c)
      | [] =>
          if cfg.noLocalWork = true then some (k.gotNoRemote first, .quiet)
          else some (k.go (.steal first 0), .quiet)
  | .steal first j =>
      if j < 2 * n then
        match (s.worker victim).localQueue with
        | c :: _ => some (k.gotWork c, .takeLocal victim c)
        | [] => some (k.go (.steal first (j + 1)), .quiet)
      else some (k.gotNoRemote first, .quiet)
  | .localPop remoteTried =>
      match k.localQueue with
      | c :: _ => some (k.gotWork c, .takeLocal w c)
      | [] =>
          if remoteTried = true then some (k.gotNoWork, .quiet)
          else some (k.go (.globalDequeue false), .quiet)
  | .spinDequeue i =>
      match s.globalQueue with
      | c :: _ => some ({ k with hand := some c, pc := .normalProcessing }, .takeGlobal c)
      | [] =>
          if cfg.noLocalWork = true then some (k.spinNext i, .quiet)
          else some (k.go (.spinSteal i 0), .quiet)
  | .spinSteal i j =>
      if j < 2 * n then
        match (s.worker victim).localQueue with
        | c :: _ => some ({ k with hand := some c, pc := .normalProcessing }, .takeLocal victim c)
        | [] => some (k.go (.spinSteal i (j + 1)), .quiet)
      else some (k.spinNext i, .quiet)
  | .spinState i =>
      if s.phase = .shuttingDown ∨ s.phase = .shuttingDownImmediately then
        some (k.go .returnedInSpin, .quiet)
      else some (k.go (.spinDequeue (i + 1)), .quiet)
  | .spinPending =>
      if s.pendingWakeUpRequestCount ≠ 0 then some (k.go .normalProcessing, .quiet)
      else if k.isSleeping = true then some (k.go .beforeSleep, .quiet)
      else some (k.go .setSleeping, .quiet)
  | .setSleeping => some ({ k with isSleeping := true, pc := .countSleeping }, .quiet)
  | .countSleeping => some (k.go (.spinDequeue 0), .mayBeSleeping true)
  | .beforeSleep => some (k.go .waitExchange, .sleeping true)
  | .waitExchange =>
      if k.wakeUpEvent = .none then
        some ({ k with wakeUpEvent := .notSet, pc := .waitLocked }, .quiet)
      else some (k.go .clearEvent, .quiet)
  | .waitLocked => some (k.go (if k.wakeUpEvent = .set then .clearEvent else .waiting), .quiet)
  | .waiting => if k.wakeUpEvent = .set then some (k.go .clearEvent, .quiet) else none
  | .clearEvent => some ({ k with wakeUpEvent := .none, pc := .afterSleep }, .quiet)
  | .afterSleep => some (k.go (.clearSleeping true), .sleeping false)
  | .clearSleeping woken =>
      some ({ k with isSleeping := false, pc := .uncountSleeping woken }, .quiet)
  | .uncountSleeping woken => some (k.go (.checkNobodySleeps woken), .mayBeSleeping false)
  | .checkNobodySleeps woken =>
      if s.mayBeSleepingThreadCount = 0 then some (k.go (.clearPending woken), .quiet)
      else some (k.afterClear woken, .quiet)
  | .clearPending woken => some (k.afterClear woken, .pending 0)
  | .normalProcessing =>
      some (k.go (if k.isSleeping = true then .clearSleeping false else .wake .loadPending), .quiet)
  | .wake pc =>
      match wakeStep cfg s .own b pc with
      | (some pc', e) => some (k.go (.wake pc'), e)
      | (none, e) => some (k.afterWake, e)
  | .resume =>
      k.hand.map fun c =>
        ({ k with hand := none, running := c :: k.running, pc := .body }, .resume c)
  | .body | .returnedAtTop | .returnedInSpin => none

/-- What the body that runs on a worker does: `scheduleOnThreadPool`, the call of
`processPendingWakeUps` in `onReady`, `ThreadPool::yield`, or its end. -/
def bodyStep (cfg : Config n O) (s : State n O C) (w : Fin n) (k : Worker n C) :
    Choice n C → Option (Worker n C × Effect n C)
  | .go _ _ => none
  | .schedule c =>
      if s.scheduled c = s.resumed c then
        some (k.go (.wake .chooseImmediate),
          if cfg.noLocalWork = true then .globalEnqueue c else .localEnqueue w c)
      else none
  | .onReady => some (k.go (.wake .loadPending), .quiet)
  | .yield b => some (k.tryGetWork cfg.noLocalWork b, .quiet)
  | .finish =>
      some ({ k with
        running := k.running.tail
        pc := if k.running.tail.isEmpty = true then .top else .body }, .quiet)

def workerStep (cfg : Config n O) (s : State n O C) (w : Fin n) (choice : Choice n C) :
    Option (Worker n C × Effect n C) :=
  match choice with
  | .go b victim => goStep cfg s w (s.worker w) b victim
  | choice => if (s.worker w).pc = .body then bodyStep cfg s w (s.worker w) choice else none

def State.setCaller (s : State n O C) (o : O) (pc : Option (WakePc n)) : State n O C :=
  { s with outside := Function.update s.outside o pc }

/-- `shutdown` after its store to `m_state`: `wakeUpIfSleeping` for every worker, `join`. -/
def closerStep (s : State n O C) : Closer n → Option (State n O C)
  | .notCalled | .returned => none
  | .checkSleeping i =>
      if h : i < n then
        if (s.worker ⟨i, h⟩).isSleeping = true then
          some { s with closer := .setEvent ⟨i, h⟩ }
        else some { s with closer := .checkSleeping (i + 1) }
      else if ∀ w, (s.worker w).pc = .returnedAtTop ∨ (s.worker w).pc = .returnedInSpin then
        some { s with phase := .terminated, closer := .returned }
      else none
  | .setEvent i => some { s.apply (.setEvent i) with closer := .checkSleeping (i + 1) }

def step (cfg : Config n O) (s : State n O C) : Action n O C → Option (State n O C)
  | .worker w choice =>
      (workerStep cfg s w choice).map fun (k, e) => (s.setWorker w k).apply e
  | .schedule o c =>
      if s.outside o = none ∧ s.scheduled c = s.resumed c then
        some ((s.setCaller o (some .chooseImmediate)).apply (.globalEnqueue c))
      else none
  | .caller o b =>
      (s.outside o).map fun pc =>
        let (pc', e) := wakeStep cfg s (.foreign (cfg.currentThreadPool o)) b pc
        (s.setCaller o pc').apply e
  | .shutdown immediately =>
      if s.closer = .notCalled then
        some { s with
          phase := if immediately = true then .shuttingDownImmediately else .shuttingDown
          closer := .checkSleeping 0 }
      else none
  | .closer => closerStep s s.closer

def newWorker : Worker n C := ⟨.top, none, [], false, .none, []⟩

/-- The pool when its constructor returns. -/
def newPool : State n O C where
  worker _ := newWorker
  outside _ := none
  globalQueue := []
  mayBeSleepingThreadCount := 0
  sleepingThreadCount := 0
  pendingWakeUpRequestCount := 0
  phase := .started
  closer := .notCalled
  scheduled _ := 0
  resumed _ := 0

/-- A pool of one thread, and one thread without a pool. -/
def oneThread (noLocalWork : Bool) : Config 1 Unit := ⟨Nat.one_pos, noLocalWork, fun _ => none⟩

def system (cfg : Config n O) (C : Type*) [DecidableEq C] :
    StepSystem (State n O C) (Action n O C) where
  start s := s = newPool
  step := step cfg

end Machine

end LevelzAsync.ThreadPool
