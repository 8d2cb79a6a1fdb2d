import LevelzAsync.AsyncScope
import LevelzAsync.CountDownEvent

/-!
# The counting event and its destructor

The calls of `CountDownEvent` with what surrounds them: `countDown` and, past its
first test, `enqueue` are counted in `m_asyncScope`, and the destructor drains the
wait list and then waits for that counter to be zero, once itself and once in the
destructor of the scope. No call begins after the
destructor has, and the calls in flight go on.

The chained tasks of `enqueue(AsyncCountDownEvent&)` and
`enqueue(SyncManualResetEvent&)` are among the coroutines. A worker that runs such
a task counts the target down or sets it, whether the task was cancelled or not.
-/

namespace LevelzAsync.EventDestructor

open CountDownEvent (Call)

/-- The next step of `~AsyncCountDownEvent`. -/
inductive DestructorPc (Co : Type*)
  | idle
  | dequeue
  | listCount (coroutine : Co)
  | setCancelled (coroutine : Co)
  | schedule (coroutine : Co)
  | waitTillEmpty
  | scopeWaitTillEmpty
  | returned
  deriving DecidableEq

structure State (Thread Co : Type*) where
  event : CountDownEvent.State Thread Co
  /-- `m_asyncScope`. -/
  scope : AsyncScope Thread
  /-- `enqueueAlways` was refused and schedules the task itself. -/
  refused : Thread → Option Co
  destructor : DestructorPc Co
  cancelled : Co → Bool
  alwaysSchedules : Co → ℕ
  destructorSchedules : Co → ℕ
  /-- The task was made and passed to `enqueueAlways`. -/
  attached : Co → Bool
  /-- The count was zero at some instant at or after that. -/
  sawZero : Co → Bool
  /-- How often the task has run. -/
  runs : Co → ℕ

inductive Action (Thread Co : Type*)
  | countDown (t : Thread)
  | countUp (t : Thread)
  | enqueue (c : Co) (t : Thread)
  /-- `enqueueAlways` for a new task. -/
  | attach (c : Co) (t : Thread)
  | cancel (c : Co) (t : Thread)
  | call (t : Thread) (spurious : Bool)
  | destroy
  | destructor
  /-- A worker runs the task. -/
  | run (c : Co)

variable {Thread Co : Type*}

namespace State

def schedules (s : State Thread Co) (c : Co) : ℕ :=
  s.event.eventSchedules c + s.event.cancelSchedules c + s.alwaysSchedules c +
    s.destructorSchedules c

def canCall (s : State Thread Co) (t : Thread) : Prop :=
  s.scope.inside t = false ∧ s.refused t = none ∧ s.destructor = .idle

instance [DecidableEq Co] (s : State Thread Co) (t : Thread) : Decidable (s.canCall t) :=
  inferInstanceAs (Decidable (_ ∧ _ ∧ _))

end State

variable [DecidableEq Thread] [DecidableEq Co]

omit [DecidableEq Thread] [DecidableEq Co] in
/-- What a refused call of `enqueueAlways` is left with. -/
def State.refuse (chained : Co → Bool) (s : State Thread Co) (t : Thread) : Call Co → Option Co
  | .enqueueIsZero c => if s.event.isZero = true ∧ chained c = true then some c else s.refused t
  | _ => s.refused t

def callStep (chained : Co → Bool) (s : State Thread Co) (t : Thread) (spurious : Bool) :
    Option (State Thread Co) :=
  match s.refused t, s.event.call t, s.scope.inside t with
  | some c, _, _ =>
      some { s with
        refused := Function.update s.refused t none
        alwaysSchedules := Function.update s.alwaysSchedules c (s.alwaysSchedules c + 1) }
  | none, .countDownLoad, false | none, .enqueuePush _, false =>
      some { s with scope := s.scope.onEnter t }
  | none, .idle, true => some { s with scope := s.scope.onExit t }
  | none, p, _ =>
      (CountDownEvent.callStep s.event t spurious p).map fun event =>
        { s with event := event, refused := Function.update s.refused t (s.refuse chained t p) }

def destructorStep (s : State Thread Co) : DestructorPc Co → Option (State Thread Co)
  | .dequeue =>
      some (match s.event.waitQueue with
        | [] => { s with destructor := .waitTillEmpty }
        | coroutine :: rest =>
          { s with
              event := { s.event with waitQueue := rest }
              destructor := .listCount coroutine })
  | .listCount coroutine =>
      some { s with
        event := { s.event with listCount := s.event.listCount - 1 }
        destructor := .setCancelled coroutine }
  | .setCancelled coroutine =>
      some { s with
        cancelled := Function.update s.cancelled coroutine true
        destructor := .schedule coroutine }
  | .schedule coroutine =>
      some { s with
        event := { s.event with awaits := Function.update s.event.awaits coroutine false }
        destructorSchedules :=
          Function.update s.destructorSchedules coroutine (s.destructorSchedules coroutine + 1)
        destructor := .dequeue }
  | .waitTillEmpty =>
      some { s with
        destructor := if s.scope.isEmpty = true then .scopeWaitTillEmpty else .waitTillEmpty }
  | .scopeWaitTillEmpty =>
      some { s with
        destructor := if s.scope.isEmpty = true then .returned else .scopeWaitTillEmpty }
  | .idle | .returned => none

def State.begin (s : State Thread Co) (t : Thread) (a : CountDownEvent.Action Thread Co) :
    Option (State Thread Co) :=
  if s.canCall t then
    (CountDownEvent.step s.event a).map fun event => { s with event := event }
  else none

def act (chained : Co → Bool) (s : State Thread Co) : Action Thread Co → Option (State Thread Co)
  | .countDown t => s.begin t (.countDown t)
  | .countUp t => s.begin t (.countUp t)
  | .enqueue c t => if chained c = false then s.begin t (.enqueue c t) else none
  | .attach c t =>
      if chained c = true ∧ s.attached c = false then
        (s.begin t (.enqueue c t)).map fun s =>
          { s with attached := Function.update s.attached c true }
      else none
  | .cancel c t =>
      -- `Coroutine::cancel` has set `m_cancelled`
      if chained c = false then
        (s.begin t (.cancel c t)).map fun s =>
          { s with cancelled := Function.update s.cancelled c true }
      else none
  | .call t spurious => callStep chained s t spurious
  | .destroy => if s.destructor = .idle then some { s with destructor := .dequeue } else none
  | .destructor => destructorStep s s.destructor
  | .run c =>
      if chained c = true ∧ s.runs c < s.schedules c then
        some { s with runs := Function.update s.runs c (s.runs c + 1) }
      else none

omit [DecidableEq Thread] [DecidableEq Co] in
/-- Whether the count is zero now is noted for every attached task. -/
def State.observe (s : State Thread Co) : State Thread Co :=
  { s with sawZero := fun c => s.attached c && (s.sawZero c || s.event.isZero) }

def initial (initiallyZero : Bool) (maxCount : ℕ) : State Thread Co where
  event := CountDownEvent.initial initiallyZero maxCount
  scope := .empty
  refused _ := none
  destructor := .idle
  cancelled _ := false
  alwaysSchedules _ := 0
  destructorSchedules _ := 0
  attached _ := false
  sawZero _ := false
  runs _ := 0

/-- The coroutines in `chained` are chained tasks. -/
def system (Thread : Type*) {Co : Type*} [DecidableEq Thread] [DecidableEq Co]
    (chained : Co → Bool) : StepSystem (State Thread Co) (Action Thread Co) where
  start s := ∃ initiallyZero maxCount, s = initial initiallyZero maxCount
  step s a := (act chained s a).map State.observe

end LevelzAsync.EventDestructor
