import LevelzAsync.StepSystem
import Mathlib.Logic.Function.Basic

/-!
# The counting event at the level of its atomic operations

Threads call `countUp`, `countDown`, `enqueue` and the `cancel` of an awaiter; an
`AsyncEvent` is the event with `maxCount = 1`, its `reset` is `countUp` and its
`signal` is `countDown`. The wait list is the atomic queue that
`ConcurrentFifoList` was shown to be, with its `m_count` updated in a step of its
own. A coroutine awaits the event in one place at a time: it calls `enqueue`
again only after it was scheduled or refused.
-/

namespace LevelzAsync.CountDownEvent

/-- Who called `resumeWaiting`. -/
inductive Caller (Co : Type*)
  | countDown
  | enqueue
  | remove (c : Co) (removed : Bool)
  deriving DecidableEq

/-- The next step of a thread inside a call. -/
inductive Call (Co : Type*)
  | idle
  | countDownLoad
  | countDownCas (prevCount : ℕ)
  | countUpLoad
  | countUpCas (prevCount : ℕ)
  | enqueueIsZero (c : Co)
  | enqueuePush (c : Co)
  | enqueueListCount
  | enqueueRecheck
  | resumeDequeue (caller : Caller Co)
  | resumeListCount (node : Co) (caller : Caller Co)
  | resumeIsZero (node : Co) (caller : Caller Co)
  | resumeEnqueue (node : Co) (caller : Caller Co)
  | resumeListCountUp (caller : Caller Co)
  | resumeSchedule (node : Co) (caller : Caller Co)
  | resumeRecheck (caller : Caller Co)
  | removeIsZero (c : Co)
  | removeCount (c : Co)
  | removeDequeue (c : Co) (left : ℕ)
  | removeListCount (c node : Co) (left : ℕ)
  | removeEnqueue (c node : Co) (left : ℕ)
  | removeListCountUp (c : Co) (left : ℕ)
  | removeRecheck (c : Co) (removed : Bool)
  | cancelSchedule (c : Co)
  deriving DecidableEq

structure State (Thread Co : Type*) where
  /-- `m_maxCount`. -/
  maxCount : ℕ
  /-- `m_count` of the event. -/
  count : ℕ
  waitQueue : List Co
  /-- `m_count` of the wait list. -/
  listCount : UInt64
  call : Thread → Call Co
  /-- The coroutine has called `enqueue` and was neither refused nor scheduled. -/
  awaits : Co → Bool
  /-- How often `enqueue` has put the coroutine into the wait list: it then
  returns true. -/
  enqueues : Co → ℕ
  eventSchedules : Co → ℕ
  cancelSchedules : Co → ℕ

/-- A call begins, or goes on; `spurious` is a compare-exchange that fails
without a reason. -/
inductive Action (Thread Co : Type*)
  | countDown (t : Thread)
  | countUp (t : Thread)
  | enqueue (c : Co) (t : Thread)
  | cancel (c : Co) (t : Thread)
  | call (t : Thread) (spurious : Bool)

variable {Thread Co : Type*} [DecidableEq Thread] [DecidableEq Co]

namespace State

def go (s : State Thread Co) (t : Thread) (p : Call Co) : State Thread Co :=
  { s with call := Function.update s.call t p }

def isZero (s : State Thread Co) : Bool := s.count = 0

/-- The end of `AsyncCountDownEvent::remove` in the awaiter's `cancel`. -/
def returnRemove (s : State Thread Co) (t : Thread) (c : Co) (removed : Bool) :
    State Thread Co :=
  s.go t (if removed = true then .cancelSchedule c else .idle)

def returnResume (s : State Thread Co) (t : Thread) : Caller Co → State Thread Co
  | .countDown | .enqueue => s.go t .idle
  | .remove c removed => s.returnRemove t c removed

end State

def callStep (s : State Thread Co) (t : Thread) (spurious : Bool) :
    Call Co → Option (State Thread Co)
  | .countDownLoad => some (s.go t (.countDownCas s.count))
  | .countDownCas prevCount =>
      some (if prevCount = 0 then s.go t .idle
        else if spurious = true ∨ s.count ≠ prevCount then s.go t (.countDownCas s.count)
        else { s.go t (if prevCount = 1 then .resumeDequeue .countDown else .idle) with
          count := prevCount - 1 })
  | .countUpLoad => some (s.go t (.countUpCas s.count))
  | .countUpCas prevCount =>
      some (if prevCount = s.maxCount then s.go t .idle
        else if spurious = true ∨ s.count ≠ prevCount then s.go t (.countUpCas s.count)
        else { s.go t .idle with count := prevCount + 1 })
  | .enqueueIsZero c =>
      some (if s.isZero = true then
          { s.go t .idle with awaits := Function.update s.awaits c false }
        else s.go t (.enqueuePush c))
  | .enqueuePush c =>
      some { s.go t .enqueueListCount with
        waitQueue := s.waitQueue ++ [c]
        enqueues := Function.update s.enqueues c (s.enqueues c + 1) }
  | .enqueueListCount => some { s.go t .enqueueRecheck with listCount := s.listCount + 1 }
  | .enqueueRecheck => some (s.go t (if s.isZero = true then .resumeDequeue .enqueue else .idle))
  | .resumeDequeue caller =>
      some (match s.waitQueue with
        | [] => s.returnResume t caller
        | node :: rest => { s.go t (.resumeListCount node caller) with waitQueue := rest })
  | .resumeListCount node caller =>
      some { s.go t (.resumeIsZero node caller) with listCount := s.listCount - 1 }
  | .resumeIsZero node caller =>
      some (s.go t (if s.isZero = true then .resumeSchedule node caller
        else .resumeEnqueue node caller))
  | .resumeEnqueue node caller =>
      some { s.go t (.resumeListCountUp caller) with waitQueue := s.waitQueue ++ [node] }
  | .resumeListCountUp caller =>
      some { s.go t (.resumeRecheck caller) with listCount := s.listCount + 1 }
  | .resumeSchedule node caller =>
      some { s.go t (.resumeRecheck caller) with
        awaits := Function.update s.awaits node false
        eventSchedules := Function.update s.eventSchedules node (s.eventSchedules node + 1) }
  | .resumeRecheck caller =>
      some (if s.isZero = true then s.go t (.resumeDequeue caller) else s.returnResume t caller)
  | .removeIsZero c => some (s.go t (if s.isZero = true then .idle else .removeCount c))
  | .removeCount c => some (s.go t (.removeDequeue c (2 * s.listCount).toNat))
  | .removeDequeue c left =>
      some (match left, s.waitQueue with
        | left + 1, node :: rest =>
          { s.go t (.removeListCount c node left) with waitQueue := rest }
        | _, _ => s.go t (.removeRecheck c false))
  | .removeListCount c node left =>
      some { s.go t (if node = c then .removeRecheck c true else .removeEnqueue c node left) with
        listCount := s.listCount - 1 }
  | .removeEnqueue c node left =>
      some { s.go t (.removeListCountUp c left) with waitQueue := s.waitQueue ++ [node] }
  | .removeListCountUp c left =>
      some { s.go t (.removeDequeue c left) with listCount := s.listCount + 1 }
  | .removeRecheck c removed =>
      some (if s.isZero = true then s.go t (.resumeDequeue (.remove c removed))
        else s.returnRemove t c removed)
  | .cancelSchedule c =>
      some { s.go t .idle with
        awaits := Function.update s.awaits c false
        cancelSchedules := Function.update s.cancelSchedules c (s.cancelSchedules c + 1) }
  | .idle => none

def step (s : State Thread Co) : Action Thread Co → Option (State Thread Co)
  | .countDown t => if s.call t = .idle then some (s.go t .countDownLoad) else none
  | .countUp t => if s.call t = .idle then some (s.go t .countUpLoad) else none
  | .enqueue c t =>
      if s.call t = .idle ∧ s.awaits c = false then
        some { s.go t (.enqueueIsZero c) with awaits := Function.update s.awaits c true }
      else none
  | .cancel c t => if s.call t = .idle then some (s.go t (.removeIsZero c)) else none
  | .call t spurious => callStep s t spurious (s.call t)

def initial (initiallyZero : Bool) (maxCount : ℕ) : State Thread Co where
  maxCount := maxCount
  count := if initiallyZero = true then 0 else 1
  waitQueue := []
  listCount := 0
  call _ := .idle
  awaits _ := false
  enqueues _ := 0
  eventSchedules _ := 0
  cancelSchedules _ := 0

def system (Thread Co : Type*) [DecidableEq Thread] [DecidableEq Co] :
    StepSystem (State Thread Co) (Action Thread Co) where
  start s := ∃ initiallyZero maxCount, s = initial initiallyZero maxCount
  step := step

end LevelzAsync.CountDownEvent
