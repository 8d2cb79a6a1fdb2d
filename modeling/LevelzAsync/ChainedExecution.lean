import LevelzAsync.PoolAffinity

/-!
# The allowance of a chain of resumptions

Over the coroutines on the threads of two pools, every thread has an allowance.
`ThreadPool::resume` sets it, `onReady` and `onSuspend` look at it, and the
`onResume` of every coroutine that goes on uses up one. A call of
`ThreadPool::resume` begins a chain; `ThreadPool::yield` interrupts the chain of
the call that spins, and puts its allowance back. What an awaiter reads of the
allowance and of the awaited task is not a choice of the label here, and an
assertion on a status stops the run.
-/

namespace LevelzAsync.PoolAffinity

open CoroutineStatus

def maxChainedExecutionAllowance : ℤ := 100

/-- `ThreadState::m_chainedExecutionAllowance`, and the number of resumptions that were
recorded since the chain was begun. -/
structure Chain where
  allowance : ℤ
  recorded : ℕ
  deriving DecidableEq

def Chain.setChainedExecutionAllowance (chain : Chain) (count : ℤ) : Chain :=
  { chain with allowance := min count maxChainedExecutionAllowance }

def Chain.recordChainedExecution (chain : Chain) : Chain :=
  ⟨chain.allowance - 1, chain.recorded + 1⟩

def Chain.initial : Chain := ⟨maxChainedExecutionAllowance, 0⟩

/-- `ThreadPool::resume` up to the call into the coroutine. -/
def Chain.begin (chainedExecutionAllowance : ℤ) : Chain :=
  Chain.initial.setChainedExecutionAllowance chainedExecutionAllowance

/-- `interrupted` has the chains below the calls of `ThreadPool::yield` on a thread, the
innermost first, and `assertFailed` records a failure of an assertion in
`ThreadPool::recordChainedExecution`. -/
structure ChainedState (T C : Type*) where
  pools : State T C
  chain : T → Chain
  interrupted : T → List Chain
  assertFailed : Bool

/-- `assert(isFinalAwaiter)` in `onReady` and `onSuspend`, which find `status`. -/
def Stage.asserted {C : Type*} (status : CoroutineStatus) : Stage C → Bool
  | .ready a | .suspending a => status ≠ abandonedCompleted ∨ a.kind = .final
  | _ => true

/-- The rest of `onResume` comes to `ThreadPool::recordChainedExecution`. -/
def Stage.records {C : Type*} (status : CoroutineStatus) (reads : Reads) : Stage C → Bool
  | .resumed => reads.isImmediateShutdownRequested = false ∧ status ≠ pauseOnRunning
  | .paused => true
  | _ => false

section Machine

variable {T C : Type*} [DecidableEq T] [DecidableEq C]

def State.isDone (s : State T C) (taskCoroutine : C) : Bool :=
  (s.coroutine taskCoroutine).any fun r => r.status.isDone

namespace ChainedState

def canDoChainedExecution (s : ChainedState T C) (t : T) : Bool :=
  (s.pools.thread t).currentThreadPool = none ∨ 0 < (s.chain t).allowance

def stage (s : ChainedState T C) (t : T) : Option (Stage C) :=
  (s.pools.thread t).frames.head?.map Frame.stage

/-- What the call on top of the stack of `t` finds, with `reads` for the rest. -/
def load (s : ChainedState T C) (t : T) (reads : Reads) : Reads :=
  { reads with
    canDoChainedExecution := s.canDoChainedExecution t
    found := match s.stage t with
      | some (.advised (.task c) _) => s.pools.isDone c
      | _ => reads.found }

def resolve (s : ChainedState T C) : Action T C → Action T C
  | .create t c taskKind requested reads => .create t c taskKind requested (s.load t reads)
  | .run t reads => .run t (s.load t reads)
  | a => a

def asserted (s : ChainedState T C) : Action T C → Bool
  | .run t _ => (s.pools.top t).all fun (f, _, r) => f.stage.asserted r.status
  | _ => true

def records (s : ChainedState T C) (t : T) (reads : Reads) : Bool :=
  (s.pools.top t).any fun (f, _, r) => f.stage.records r.status reads

/-- The chains of `t` after a step to `pools`. -/
def set (s : ChainedState T C) (pools : State T C) (t : T) (chain : Chain)
    (interrupted : List Chain) : ChainedState T C :=
  { s with
    pools := pools
    chain := Function.update s.chain t chain
    interrupted := Function.update s.interrupted t interrupted }

/-- `ThreadPool::resume` is called by the worker loop, or by `ThreadPool::yield` under
the calls on the stack. -/
def resume (s : ChainedState T C) (t : T) (pools : State T C) : ChainedState T C :=
  if (s.pools.thread t).frames = [] then
    s.set pools t (.begin maxChainedExecutionAllowance) (s.interrupted t)
  else s.set pools t (.begin 1) (s.chain t :: s.interrupted t)

/-- `ThreadPool::recordChainedExecution`, with its assertions. -/
def recordChainedExecution (s : ChainedState T C) (t : T) (pools : State T C) :
    ChainedState T C :=
  { s.set pools t (s.chain t).recordChainedExecution (s.interrupted t) with
    assertFailed := s.assertFailed || decide (¬((s.pools.thread t).currentThreadPool ≠ none ∧
      0 < (s.chain t).allowance)) }

/-- A call that `ThreadPool::yield` made has returned, and the allowance is put back. -/
def unwind (s : ChainedState T C) (t : T) (pools : State T C) : ChainedState T C :=
  match (s.pools.thread t).frames, s.interrupted t with
  | f :: rest, chain :: interrupted =>
      if f.restores.isSome = true ∧ (pools.thread t).frames.length = rest.length then
        s.set pools t (chain.setChainedExecutionAllowance chain.allowance) interrupted
      else { s with pools := pools }
  | _, _ => { s with pools := pools }

def next (s : ChainedState T C) (pools : State T C) : Action T C → ChainedState T C
  | .work t _ => s.resume t pools
  | .run t reads =>
      if s.records t reads = true then s.recordChainedExecution t pools else s.unwind t pools
  | .finish t => s.unwind t pools
  | _ => { s with pools := pools }

def step (s : ChainedState T C) (a : Action T C) : Option (ChainedState T C) :=
  if s.asserted a = true then
    ((system T C).step s.pools (s.resolve a)).map fun pools => s.next pools a
  else none

end ChainedState

def chainedSystem (T C : Type*) [DecidableEq T] [DecidableEq C] :
    StepSystem (ChainedState T C) (Action T C) where
  start s := (system T C).start s.pools ∧ (∀ t, s.chain t = .initial ∧ s.interrupted t = []) ∧
    s.assertFailed = false
  step := ChainedState.step

namespace ChainedState

variable (s : ChainedState T C) (t : T) (pools : State T C)

omit [DecidableEq C] in
theorem pools_resume : (s.resume t pools).pools = pools := by
  unfold resume
  split_ifs
  · rfl
  · rfl

omit [DecidableEq C] in
theorem pools_unwind : (s.unwind t pools).pools = pools := by
  unfold unwind
  split
  · split_ifs
    · rfl
    · rfl
  · rfl

omit [DecidableEq C] in
theorem pools_next (a : Action T C) : (s.next pools a).pools = pools := by
  cases a with
  | work t victim => exact s.pools_resume t pools
  | run t reads =>
      unfold next
      dsimp only
      split_ifs
      · rfl
      · exact s.pools_unwind t pools
  | finish t => exact s.pools_unwind t pools
  | _ => rfl

end ChainedState

/-- Without the allowances the coroutines run as in `system`. -/
theorem chained_refines :
    (chainedSystem T C).Refines (system T C) ChainedState.pools where
  start _ h := h.1
  step s a s' _ ha := by
    obtain ⟨-, ha⟩ := Option.ite_none_right_eq_some.mp ha
    obtain ⟨pools, hpools, rfl⟩ := Option.map_eq_some_iff.mp ha
    rw [s.pools_next]
    exact .inr ⟨s.resolve a, hpools⟩

end Machine

end LevelzAsync.PoolAffinity
