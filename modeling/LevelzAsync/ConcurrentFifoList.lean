import LevelzAsync.StepSystem
import Mathlib.Data.List.Chain
import Mathlib.Data.List.Nodup

/-!
# The concurrent FIFO list at the level of its atomic operations

One step of `ConcurrentFifoList.system` is one access to `m_head`, `m_tail`,
`m_count` or to the next pointer of a node, by a thread inside `enqueue` or
`dequeue`. A failed `assert` stops the thread at `Pc.aborted`. Three history
variables record the order of the `m_tail` exchanges, the order of the
successful exchanges of `m_head`, and the nodes that dequeue calls returned.
-/

namespace LevelzAsync.ConcurrentFifoList

variable {Thread Node : Type*}

/-- Where a thread stands: the name says what its next step does. -/
inductive Pc (Node : Type*)
  | idle
  | clearNext (node : Node)
  | swapTail (node : Node)
  | checkOldTail (node oldTail : Node)
  | linkOldTail (node oldTail : Node)
  | checkHead (node : Node)
  | swapHead (node : Node)
  | countUp
  | enqueued
  | loadHead
  | loadTail
  | spinHead
  | spinTail
  | casHead (oldHead : Node)
  | checkTaken (oldHead : Node)
  | loadNext (oldHead : Node)
  | storeHead (oldHead : Node) (newHead : Option Node)
  | checkLast (oldHead : Node)
  | casTail (oldHead : Node)
  | spinNext (oldHead : Node)
  | checkHandOver (oldHead : Node)
  | reloadNext (oldHead : Node)
  | restoreHead (oldHead : Node) (newHead : Option Node)
  | clearOldHead (oldHead : Node)
  | countDown (oldHead : Node)
  | dequeued (result : Option Node)
  | aborted
  deriving DecidableEq

/-- No call in flight: none was made yet, or the last one has returned. -/
def Pc.isQuiet : Pc Node → Bool
  | .idle | .enqueued | .dequeued _ => true
  | _ => false

structure State (Thread Node : Type*) where
  head : Option Node
  tail : Option Node
  next : Node → Option Node
  count : UInt64
  pc : Thread → Pc Node
  /-- A node belongs to the list from the call of `enqueue` on it until a
  `dequeue` has returned it; callers enqueue only nodes that do not. -/
  listed : Node → Bool
  enqueueOrder : List Node
  dequeueOrder : List Node
  returned : List Node

namespace State

/-- Enqueued by an exchange of `m_tail` and not yet taken by one of `m_head`. -/
def queue (s : State Thread Node) : List Node :=
  s.enqueueOrder.drop s.dequeueOrder.length

variable [DecidableEq Thread]

def goto (s : State Thread Node) (t : Thread) (p : Pc Node) : State Thread Node :=
  { s with pc := Function.update s.pc t p }

end State

/-- `enqueue` and `dequeue` begin a call; `advance` performs the next atomic
access of the thread, where a weak compare-exchange may fail spuriously. -/
inductive Action (Thread Node : Type*)
  | enqueue (t : Thread) (node : Node)
  | dequeue (t : Thread)
  | advance (t : Thread) (spurious : Bool)

variable [DecidableEq Thread] [DecidableEq Node]

def enqueueStep (s : State Thread Node) (t : Thread) : Pc Node → Option (State Thread Node)
  | .clearNext node =>
      some { s.goto t (.swapTail node) with next := Function.update s.next node none }
  | .swapTail node =>
      some { s.goto t (match s.tail with
              | some oldTail => .checkOldTail node oldTail
              | none => .checkHead node) with
        tail := some node
        enqueueOrder := s.enqueueOrder ++ [node] }
  | .checkOldTail node oldTail =>
      some (s.goto t (if s.next oldTail = none then .linkOldTail node oldTail else .aborted))
  | .linkOldTail node oldTail =>
      some { s.goto t .countUp with next := Function.update s.next oldTail (some node) }
  | .checkHead node => some (s.goto t (if s.head = none then .swapHead node else .aborted))
  | .swapHead node =>
      some { s.goto t (if s.head = none then .countUp else .aborted) with head := some node }
  | .countUp => some { s.goto t .enqueued with count := s.count + 1 }
  | _ => none

def dequeueStep (s : State Thread Node) (t : Thread) (spurious : Bool) :
    Pc Node → Option (State Thread Node)
  | .loadHead =>
      some (s.goto t (match s.head with
        | some oldHead => .casHead oldHead
        | none => .loadTail))
  | .loadTail => some (s.goto t (if s.tail = none then .dequeued none else .spinHead))
  | .spinHead =>
      some (s.goto t (match s.head with
        | some oldHead => .casHead oldHead
        | none => .spinTail))
  | .spinTail => some (s.goto t (if s.tail = none then .dequeued none else .spinHead))
  | .casHead oldHead =>
      if s.head = some oldHead ∧ spurious = false then
        some { s.goto t (.checkTaken oldHead) with
          head := none
          dequeueOrder := s.dequeueOrder ++ [oldHead] }
      else some (s.goto t (match s.head with
        | some oldHead => .casHead oldHead
        | none => .loadTail))
  | .checkTaken oldHead =>
      some (s.goto t (if s.head = none then .loadNext oldHead else .aborted))
  | .loadNext oldHead => some (s.goto t (.storeHead oldHead (s.next oldHead)))
  | .storeHead oldHead newHead =>
      some { s.goto t (match newHead with
              | some _ => .clearOldHead oldHead
              | none => .checkLast oldHead) with
        head := newHead }
  | .checkLast oldHead =>
      some (s.goto t (if s.head = none then .casTail oldHead else .aborted))
  | .casTail oldHead =>
      if s.tail = some oldHead then
        some { s.goto t (.clearOldHead oldHead) with tail := none }
      else some (s.goto t (.spinNext oldHead))
  | .spinNext oldHead =>
      some (s.goto t (if s.next oldHead = none then .spinNext oldHead else .checkHandOver oldHead))
  | .checkHandOver oldHead =>
      some (s.goto t (if s.head = none then .reloadNext oldHead else .aborted))
  | .reloadNext oldHead => some (s.goto t (.restoreHead oldHead (s.next oldHead)))
  | .restoreHead oldHead newHead =>
      some { s.goto t (.clearOldHead oldHead) with head := newHead }
  | .clearOldHead oldHead =>
      some { s.goto t (.countDown oldHead) with next := Function.update s.next oldHead none }
  | .countDown oldHead =>
      some { s.goto t (.dequeued (some oldHead)) with
        count := s.count - 1
        listed := Function.update s.listed oldHead false
        returned := s.returned ++ [oldHead] }
  | _ => none

def step (s : State Thread Node) : Action Thread Node → Option (State Thread Node)
  | .enqueue t node =>
      if (s.pc t).isQuiet = true ∧ s.listed node = false then
        some { s.goto t (.clearNext node) with listed := Function.update s.listed node true }
      else none
  | .dequeue t => if (s.pc t).isQuiet = true then some (s.goto t .loadHead) else none
  | .advance t spurious =>
      (enqueueStep s t (s.pc t)).or (dequeueStep s t spurious (s.pc t))

/-- A constructed list before its first call. The next pointers of the nodes
outside it are arbitrary: `enqueue` clears them. -/
def initial (next : Node → Option Node) : State Thread Node where
  head := none
  tail := none
  next := next
  count := 0
  pc _ := .idle
  listed _ := false
  enqueueOrder := []
  dequeueOrder := []
  returned := []

def system (Thread Node : Type*) [DecidableEq Thread] [DecidableEq Node] :
    StepSystem (State Thread Node) (Action Thread Node) where
  start s := ∃ next, s = initial next
  step := step

end LevelzAsync.ConcurrentFifoList
