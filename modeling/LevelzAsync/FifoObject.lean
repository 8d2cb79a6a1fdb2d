import LevelzAsync.StepSystem

/-!
# A FIFO queue as an atomic object

Every call takes effect in one step between its invocation and its answer: an
`enqueue` appends its item, a `dequeue` takes the first one, or answers `none`
at an instant at which the queue is empty. An implementation that refines this
system is a linearizable queue.
-/

namespace FifoObject

variable {Thread Item : Type*}

inductive Call (Item : Type*)
  | idle
  | enqueuing (item : Item)
  | enqueueDone
  | dequeuing
  | dequeueDone (answer : Option Item)

/-- The last call, if any, has taken effect. -/
def Call.isDone : Call Item → Bool
  | .enqueuing _ | .dequeuing => false
  | _ => true

structure State (Thread Item : Type*) where
  queue : List Item
  call : Thread → Call Item

inductive Event (Thread Item : Type*)
  | enqueue (t : Thread) (item : Item)
  | dequeue (t : Thread)
  | effect (t : Thread)

/-- What the effect of a pending call does to the queue, and the call after it. -/
def Call.effect (queue : List Item) : Call Item → Option (List Item × Call Item)
  | .enqueuing item => some (queue ++ [item], .enqueueDone)
  | .dequeuing => some (queue.tail, .dequeueDone queue.head?)
  | _ => none

variable [DecidableEq Thread]

def step (s : State Thread Item) : Event Thread Item → Option (State Thread Item)
  | .enqueue t item =>
      if (s.call t).isDone = true then
        some { s with call := Function.update s.call t (.enqueuing item) }
      else none
  | .dequeue t =>
      if (s.call t).isDone = true then
        some { s with call := Function.update s.call t .dequeuing }
      else none
  | .effect t => ((s.call t).effect s.queue).map fun r =>
      { queue := r.1, call := Function.update s.call t r.2 }

def system (Thread Item : Type*) [DecidableEq Thread] :
    StepSystem (State Thread Item) (Event Thread Item) where
  start s := s.queue = [] ∧ ∀ t, s.call t = .idle
  step := step

end FifoObject
