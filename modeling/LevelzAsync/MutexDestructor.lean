import LevelzAsync.AsyncMutex
import LevelzAsync.AsyncScope

/-!
# The asynchronous mutex and its destructor

The calls of `AsyncMutex` with the scope that counts them: `lock` is counted in
`m_asyncScope` from before its first look at the owner word to its return,
`unlock` and `remove` are not, except for the `lock` that they may call. No await
and no call begins after the destructor has, and the calls in flight go on.
-/

namespace LevelzAsync.MutexDestructor

open AsyncMutex (Call)

/-- The next step of `~AsyncMutex`. -/
inductive DestructorPc (Co : Type*)
  | idle
  | cancelMark
  | dequeue
  | setCancelled (coroutine : Co)
  | schedule (coroutine : Co)
  | checkOwner
  | waitTillEmpty
  | scopeWaitTillEmpty
  | returned
  deriving DecidableEq

structure State (Thread Co : Type*) where
  mutex : AsyncMutex.State Thread Co
  /-- `m_asyncScope`. -/
  scope : AsyncScope Thread
  destructor : DestructorPc Co

inductive Action (Thread Co : Type*)
  | mutex (a : AsyncMutex.Action Thread Co)
  | destroy
  | destructor

variable {Thread Co : Type*}

def inLock : Call Co → Bool
  | .lockLoad _ _ | .lockEnqueue _ _ | .lockReload _ | .lockDequeue _ | .lockCas _ _
  | .lockSchedule _ _ => true
  | _ => false

def pastLoad : Call Co → Bool
  | .lockLoad _ _ => false
  | p => inLock p

variable [DecidableEq Thread] [DecidableEq Co]

def mutexStep (s : State Thread Co) (a : AsyncMutex.Action Thread Co) : Option (State Thread Co) :=
  (AsyncMutex.step s.mutex a).map fun mutex => { s with mutex := mutex }

def callStep (s : State Thread Co) (t : Thread) (spurious : Bool) (bound : ℕ) :
    Option (State Thread Co) :=
  match s.mutex.call t, s.scope.inside t with
  | .lockLoad _ _, false => some { s with scope := s.scope.onEnter t }
  | p, true =>
      if inLock p = true then mutexStep s (.call t spurious bound)
      else some { s with scope := s.scope.onExit t }
  | _, false => mutexStep s (.call t spurious bound)

def destructorStep (s : State Thread Co) : DestructorPc Co → Option (State Thread Co)
  | .cancelMark =>
      some { s with mutex := { s.mutex with cancelled := true }, destructor := .dequeue }
  | .dequeue =>
      some (match s.mutex.waitList with
        | [] => { s with destructor := .checkOwner }
        | coroutine :: rest =>
          { s with
              mutex := { s.mutex with waitList := rest }
              destructor := .setCancelled coroutine })
  | .setCancelled coroutine =>
      some { s with mutex := s.mutex.mark coroutine, destructor := .schedule coroutine }
  | .schedule coroutine =>
      some { s with mutex := s.mutex.schedule coroutine, destructor := .dequeue }
  | .checkOwner =>
      some { s with
        destructor := if s.mutex.owner = none then .waitTillEmpty else .checkOwner }
  | .waitTillEmpty =>
      some { s with
        destructor := if s.scope.isEmpty = true then .scopeWaitTillEmpty else .waitTillEmpty }
  | .scopeWaitTillEmpty =>
      some { s with
        destructor := if s.scope.isEmpty = true then .returned else .scopeWaitTillEmpty }
  | .idle | .returned => none

def step (s : State Thread Co) : Action Thread Co → Option (State Thread Co)
  | .mutex a =>
      match a with
      | .call t spurious bound => callStep s t spurious bound
      | .await _ => if s.destructor = .idle then mutexStep s a else none
      | .lock _ t | .unlock _ t | .cancel t | .remove _ t =>
          if s.destructor = .idle ∧ s.scope.inside t = false then mutexStep s a else none
      | .co _ _ _ _ | .setCancelled _ | .setAbandoned _ => mutexStep s a
  | .destroy => if s.destructor = .idle then some { s with destructor := .cancelMark } else none
  | .destructor => destructorStep s s.destructor

def initial (coCancelled coAbandoned : Co → Bool) : State Thread Co where
  mutex := AsyncMutex.initial coCancelled coAbandoned
  scope := .empty
  destructor := .idle

def system (Thread Co : Type*) [DecidableEq Thread] [DecidableEq Co] :
    StepSystem (State Thread Co) (Action Thread Co) where
  start s := ∃ coCancelled coAbandoned, s = initial coCancelled coAbandoned
  step := step

end LevelzAsync.MutexDestructor
