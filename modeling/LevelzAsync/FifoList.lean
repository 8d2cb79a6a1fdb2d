import LevelzAsync.ConcurrentFifoList
import Mathlib.Data.Fintype.Card
import Mathlib.Data.List.Rotate

/-!
# Calls of the concurrent FIFO list that do not overlap

Without another thread inside, each of `enqueue`, `dequeue` and `remove` is a function of
`m_head`, `m_tail`, `m_count` and the next pointers. The memory represents a list of
distinct nodes, and the calls do to it what they should do to the list. `remove` counts
its rounds in 64 bits; that no list of distinct nodes is too long for that is a fact about
their addresses.
-/

namespace LevelzAsync.FifoList

/-- Distinct nodes have distinct addresses of 64 bits, and each begins with eight bytes. -/
class Addressed (Node : Type*) where
  address : Node → UInt64
  address_injective : Function.Injective address
  aligned : ∀ node, (address node).toNat % 8 = 0

structure State (Node : Type*) where
  head : Option Node
  tail : Option Node
  next : Node → Option Node
  count : UInt64

inductive Call (Node : Type*)
  | enqueue (node : Node)
  | dequeue
  | remove (nodeToRemove : Node)

inductive Answer (Node : Type*)
  | enqueued
  | dequeued (result : Option Node)
  | removed (found : Bool)
  deriving DecidableEq

section Machine

variable {Node : Type*}

def State.isEmpty (s : State Node) : Bool := s.head.isNone

def initial (next : Node → Option Node) : State Node := ⟨none, none, next, 0⟩

variable [DecidableEq Node]

def State.setNext (s : State Node) (node : Node) (value : Option Node) : State Node :=
  { s with next := Function.update s.next node value }

/-- No result if an assertion fails. -/
def enqueue (s : State Node) (node : Node) : Option (State Node) :=
  let oldTail := s.tail
  let s : State Node := { s.setNext node none with tail := some node }
  match oldTail with
  | some oldTail =>
      if s.next oldTail = none then
        some { s.setNext oldTail (some node) with count := s.count + 1 }
      else none
  | none =>
      if s.head = none then some { s with head := some node, count := s.count + 1 } else none

/-- No result if an assertion fails or the call spins for ever. -/
def dequeue (s : State Node) : Option (Option Node × State Node) :=
  match s.head with
  | none => if s.tail = none then some (none, s) else none
  | some oldHead =>
      match s.next oldHead with
      | some newHead =>
          some (some oldHead,
            { s.setNext oldHead none with head := some newHead, count := s.count - 1 })
      | none =>
          if s.tail = some oldHead then
            some (some oldHead,
              { s.setNext oldHead none with head := none, tail := none, count := s.count - 1 })
          else none

/-- The loop of `remove`, for the rounds that are left; `made` counts the calls of
`dequeue`. -/
def removeLoop (nodeToRemove : Node) : ℕ → ℕ → State Node → Option (Bool × ℕ × State Node)
  | 0, made, s => some (false, made, s)
  | rounds + 1, made, s =>
      (dequeue s).bind fun
        | (none, s) => some (false, made + 1, s)
        | (some node, s) =>
            if node = nodeToRemove then some (true, made + 1, s)
            else (enqueue s node).bind (removeLoop nodeToRemove rounds (made + 1))

def remove (s : State Node) (nodeToRemove : Node) : Option (Bool × ℕ × State Node) :=
  removeLoop nodeToRemove (2 * s.count).toNat 0 s

def State.call (s : State Node) : Call Node → Option (Answer Node × State Node)
  | .enqueue node => (enqueue s node).map fun s => (.enqueued, s)
  | .dequeue => (dequeue s).map fun (result, s) => (.dequeued result, s)
  | .remove nodeToRemove => (remove s nodeToRemove).map fun (found, _, s) => (.removed found, s)

/-- What a call should do to a list; only a node outside the list is enqueued. -/
def listCall (l : List Node) : Call Node → Option (Answer Node × List Node)
  | .enqueue node => if node ∈ l then none else some (.enqueued, l ++ [node])
  | .dequeue => some (.dequeued l.head?, l.tail)
  | .remove x =>
      if x ∈ l then some (.removed true, l.drop (l.idxOf x + 1) ++ l.take (l.idxOf x))
      else some (.removed false, l)

/-- The answers of a sequence of calls, and the state after it. -/
def answers {σ : Type*} (call : σ → Call Node → Option (Answer Node × σ)) :
    σ → List (Call Node) → Option (List (Answer Node) × σ)
  | s, [] => some ([], s)
  | s, c :: calls =>
      (call s c).bind fun (answer, s) =>
        (answers call s calls).map fun (rest, s) => (answer :: rest, s)

end Machine

structure Represents {Node : Type*} (s : State Node) (l : List Node) : Prop where
  head : s.head = l.head?
  tail : s.tail = l.getLast?
  linked : l.IsChain fun x y => s.next x = some y
  last : ∀ x, l.getLast? = some x → s.next x = none
  nodup : l.Nodup
  count : s.count.toNat = l.length

section Length

variable {Node : Type*} [Addressed Node]

def place (node : Node) : Fin (2 ^ 61) :=
  ⟨(Addressed.address node).toNat / 8, by
    have := (Addressed.address node).toNat_lt
    omega⟩

theorem place_injective : Function.Injective (place : Node → Fin (2 ^ 61)) := by
  intro x y h
  apply Addressed.address_injective
  have hdiv : (Addressed.address x).toNat / 8 = (Addressed.address y).toNat / 8 :=
    congrArg Fin.val h
  have hx := Addressed.aligned x
  have hy := Addressed.aligned y
  rw [← UInt64.toNat_inj]
  omega

theorem length_le {l : List Node} (h : l.Nodup) : l.length ≤ 2 ^ 61 := by
  have hle := (h.map place_injective).length_le_card
  rwa [List.length_map, Fintype.card_fin] at hle

end Length

section Calls

variable {Node : Type*} {s s' : State Node} {l : List Node} {node x : Node}

theorem Represents.isEmpty (h : Represents s l) : s.isEmpty = true ↔ l = [] := by
  unfold State.isEmpty
  rw [h.head]
  cases l <;> simp

theorem represents_initial (next : Node → Option Node) : Represents (initial next) [] :=
  ⟨rfl, rfl, List.isChain_nil, nofun, List.nodup_nil, rfl⟩

variable [DecidableEq Node]

theorem Represents.enqueue (h : Represents s l) (hn : node ∉ l) (hlen : l.length + 1 < 2 ^ 64) :
    ∃ s', enqueue s node = some s' ∧ Represents s' (l ++ [node]) := by
  have hcount : (s.count + 1).toNat = (l ++ [node]).length := by
    rw [UInt64.toNat_add, h.count, List.length_append, List.length_singleton]
    exact Nat.mod_eq_of_lt hlen
  have hnodup : (l ++ [node]).Nodup :=
    h.nodup.append (List.nodup_singleton node) (by simpa using hn)
  unfold FifoList.enqueue
  cases hl : l.getLast? with
  | none =>
      obtain rfl : l = [] := List.getLast?_eq_none_iff.mp hl
      rw [h.tail, hl]
      refine ⟨_, if_pos h.head, rfl, rfl, List.isChain_singleton node, ?_, hnodup, hcount⟩
      intro x hx
      obtain rfl : node = x := by simpa using hx
      exact Function.update_self ..
  | some oldTail =>
      have hold : s.next oldTail = none := h.last oldTail hl
      have hmem : oldTail ∈ l := List.mem_of_getLast? hl
      have hne : oldTail ≠ node := fun he => hn (he ▸ hmem)
      have hfree : (s.setNext node none).next oldTail = none :=
        (Function.update_of_ne hne ..).trans hold
      rw [h.tail, hl]
      refine ⟨_, if_pos hfree, ?_, ?_, ?_, ?_, hnodup, hcount⟩
      · obtain ⟨first, rest, rfl⟩ := List.exists_cons_of_ne_nil (List.ne_nil_of_mem hmem)
        exact h.head
      · rw [List.getLast?_concat]
        rfl
      · refine List.isChain_append.mpr ⟨h.linked.imp_of_mem_imp fun a b ha _ hab => ?_,
          List.isChain_singleton node, fun a ha b hb => ?_⟩
        · have hao : a ≠ oldTail := by
            rintro rfl
            rw [hold] at hab
            cases hab
          have han : a ≠ node := fun he => hn (he ▸ ha)
          exact (Function.update_of_ne hao ..).trans ((Function.update_of_ne han ..).trans hab)
        · obtain rfl : oldTail = a := Option.some.inj (hl.symm.trans ha)
          obtain rfl : node = b := by simpa using hb
          exact Function.update_self ..
      · intro x hx
        obtain rfl : node = x := by simpa using hx
        exact (Function.update_of_ne hne.symm ..).trans (Function.update_self ..)

theorem Represents.dequeue (h : Represents s (node :: l)) :
    ∃ s', dequeue s = some (some node, s') ∧ Represents s' l ∧ s'.next node = none := by
  obtain ⟨hn, hnodup⟩ := List.nodup_cons.mp h.nodup
  have hcount : (s.count - 1).toNat = l.length := by
    have hlen := h.count
    rw [List.length_cons] at hlen
    have hone : (1 : UInt64) ≤ s.count := by
      rw [UInt64.le_iff_toNat_le, hlen]
      exact Nat.le_add_left 1 l.length
    rw [UInt64.toNat_sub_of_le _ _ hone, hlen]
    rfl
  have hkept : ∀ x ∈ l, (s.setNext node none).next x = s.next x := fun x hx => by
    refine Function.update_of_ne ?_ ..
    rintro rfl
    exact hn hx
  have hhead : s.head = some node := h.head
  cases l with
  | nil =>
      have hnext : s.next node = none := h.last node rfl
      have htail : s.tail = some node := h.tail
      have hrun : FifoList.dequeue s = some (some node,
          { s.setNext node none with head := none, tail := none, count := s.count - 1 }) := by
        unfold FifoList.dequeue
        rw [hhead]
        dsimp only
        rw [hnext]
        exact if_pos htail
      exact ⟨_, hrun, ⟨rfl, rfl, List.isChain_nil, nofun, hnodup, hcount⟩,
        Function.update_self ..⟩
  | cons y rest =>
      have hnext : s.next node = some y := (List.isChain_cons_cons.mp h.linked).1
      have hlast : (node :: y :: rest).getLast? = (y :: rest).getLast? := List.getLast?_cons_cons
      have hrun : FifoList.dequeue s = some (some node,
          { s.setNext node none with head := some y, count := s.count - 1 }) := by
        unfold FifoList.dequeue
        rw [hhead]
        dsimp only
        rw [hnext]
      refine ⟨_, hrun, ⟨rfl, h.tail.trans hlast, ?_, ?_, hnodup, hcount⟩,
        Function.update_self ..⟩
      · refine (List.isChain_cons_cons.mp h.linked).2.imp_of_mem_imp fun a b ha _ hab => ?_
        exact (hkept a ha).trans hab
      · intro x hx
        exact (hkept x (List.mem_of_getLast? hx)).trans (h.last x (hlast.trans hx))

theorem Represents.dequeue_nil (h : Represents s []) : FifoList.dequeue s = some (none, s) := by
  unfold FifoList.dequeue
  have hhead : s.head = none := h.head
  have htail : s.tail = none := h.tail
  rw [hhead]
  exact if_pos htail

section Remove

variable [Addressed Node]

omit [DecidableEq Node] in
theorem length_lt (hl : l.Nodup) : 2 * l.length < 2 ^ 64 := by
  have := length_le hl
  omega

theorem Represents.round (h : Represents s (node :: l)) (hne : node ≠ x) (rounds made : ℕ) :
    ∃ s', Represents s' (l ++ [node]) ∧
      removeLoop x (rounds + 1) made s = removeLoop x rounds (made + 1) s' := by
  obtain ⟨s₁, hdequeue, h₁, -⟩ := h.dequeue
  obtain ⟨hn, hnodup⟩ := List.nodup_cons.mp h.nodup
  have hlen : l.length + 1 < 2 ^ 64 := by
    have := length_lt h.nodup
    rw [List.length_cons] at this
    omega
  obtain ⟨s₂, henqueue, h₂⟩ := h₁.enqueue hn hlen
  refine ⟨s₂, h₂, ?_⟩
  rw [removeLoop, hdequeue]
  change (if node = x then _ else _) = _
  rw [if_neg hne, henqueue]
  rfl

/-- While the node is not there, the list is rotated. -/
theorem Represents.removeLoop_absent (h : Represents s l) (hx : x ∉ l) (hl : l ≠ [])
    (rounds made : ℕ) :
    ∃ s', removeLoop x rounds made s = some (false, made + rounds, s') ∧
      Represents s' (l.rotate rounds) := by
  induction rounds generalizing s l made with
  | zero => exact ⟨s, rfl, by rwa [List.rotate_zero]⟩
  | succ rounds ih =>
      obtain ⟨node, rest, rfl⟩ := List.exists_cons_of_ne_nil hl
      have hne : node ≠ x := fun he => hx (he ▸ List.mem_cons_self)
      obtain ⟨s₁, h₁, hround⟩ := h.round hne rounds made
      have hx₁ : x ∉ rest ++ [node] := by
        simpa [and_comm, eq_comm] using hx
      obtain ⟨s₂, hloop, h₂⟩ := ih h₁ hx₁ (by simp) (made + 1)
      refine ⟨s₂, ?_, by rwa [List.rotate_cons_succ]⟩
      rw [hround, hloop, Nat.add_right_comm, Nat.add_assoc]

/-- The nodes before the one to remove come behind the others. -/
theorem Represents.removeLoop_present {before after : List Node} {rounds : ℕ}
    (h : Represents s (before ++ x :: after)) (hrounds : before.length < rounds) (made : ℕ) :
    ∃ s', removeLoop x rounds made s = some (true, made + before.length + 1, s') ∧
      Represents s' (after ++ before) := by
  induction before generalizing s after rounds made with
  | nil =>
      obtain ⟨rounds, rfl⟩ := Nat.exists_eq_succ_of_ne_zero hrounds.ne'
      obtain ⟨s₁, hdequeue, h₁, -⟩ := h.dequeue
      refine ⟨s₁, ?_, by rwa [List.append_nil]⟩
      rw [removeLoop, hdequeue]
      exact if_pos rfl
  | cons node before ih =>
      obtain ⟨rounds, rfl⟩ :=
        Nat.exists_eq_succ_of_ne_zero (Nat.ne_of_gt (Nat.zero_lt_of_lt hrounds))
      have hne : node ≠ x := by
        rintro rfl
        exact (List.nodup_cons.mp h.nodup).1 (by simp)
      obtain ⟨s₁, h₁, hround⟩ := Represents.round (l := before ++ x :: after) h hne rounds made
      rw [List.append_assoc, List.cons_append] at h₁
      obtain ⟨s₂, hloop, h₂⟩ := ih h₁ (Nat.succ_lt_succ_iff.mp hrounds) (made + 1)
      refine ⟨s₂, ?_, ?_⟩
      · rw [hround, hloop, List.length_cons]
        congr 3
        omega
      · rwa [List.append_assoc, List.singleton_append] at h₂

omit [DecidableEq Node] in
theorem two_count (h : Represents s l) : (2 * s.count).toNat = 2 * l.length := by
  rw [UInt64.toNat_mul, h.count]
  exact Nat.mod_eq_of_lt (length_lt h.nodup)

theorem Represents.remove_present (h : Represents s l) (hx : x ∈ l) :
    ∃ s', remove s x = some (true, l.idxOf x + 1, s') ∧
      Represents s' (l.drop (l.idxOf x + 1) ++ l.take (l.idxOf x)) := by
  have hi : l.idxOf x < l.length := List.idxOf_lt_length_of_mem hx
  have hsplit : l = l.take (l.idxOf x) ++ x :: l.drop (l.idxOf x + 1) := by
    conv_lhs => rw [← List.take_append_drop (l.idxOf x) l, List.drop_eq_getElem_cons hi,
      List.getElem_idxOf hi]
  have htake : (l.take (l.idxOf x)).length = l.idxOf x := List.length_take_of_le hi.le
  have hrounds : (l.take (l.idxOf x)).length < (2 * s.count).toNat := by
    rw [two_count h, htake]
    omega
  obtain ⟨s', hloop, hs'⟩ := Represents.removeLoop_present (hsplit ▸ h) hrounds 0
  rw [htake, Nat.zero_add] at hloop
  exact ⟨s', hloop, hs'⟩

theorem Represents.remove_absent (h : Represents s l) (hx : x ∉ l) :
    ∃ s', remove s x = some (false, 2 * l.length, s') ∧ Represents s' l := by
  unfold FifoList.remove
  rw [two_count h]
  by_cases hl : l = []
  · subst hl
    exact ⟨s, rfl, h⟩
  · obtain ⟨s', hloop, hs'⟩ := h.removeLoop_absent hx hl (2 * l.length) 0
    rw [Nat.zero_add] at hloop
    rw [Nat.mul_comm, List.rotate_length_mul] at hs'
    exact ⟨s', hloop, hs'⟩

end Remove

end Calls

section Runs

variable {Node : Type*} [DecidableEq Node] [Addressed Node] {s : State Node} {l l' : List Node}

theorem Represents.call {c : Call Node} {answer : Answer Node} (h : Represents s l)
    (hc : listCall l c = some (answer, l')) :
    ∃ s', s.call c = some (answer, s') ∧ Represents s' l' := by
  cases c with
  | enqueue node =>
      obtain ⟨hn, he⟩ := Option.ite_none_left_eq_some.mp hc
      cases he
      have hlen : l.length + 1 < 2 ^ 64 := by
        have := length_le h.nodup
        omega
      obtain ⟨s', henqueue, hs'⟩ := h.enqueue hn hlen
      exact ⟨s', by simp [State.call, henqueue], hs'⟩
  | dequeue =>
      cases hc
      cases l with
      | nil => exact ⟨s, by simp [State.call, h.dequeue_nil], h⟩
      | cons node l =>
          obtain ⟨s', hdequeue, hs', -⟩ := h.dequeue
          exact ⟨s', by simp [State.call, hdequeue], hs'⟩
  | remove x =>
      unfold listCall at hc
      dsimp only at hc
      split_ifs at hc with hx
      · cases hc
        obtain ⟨s', hremove, hs'⟩ := h.remove_present hx
        exact ⟨s', by simp [State.call, hremove], hs'⟩
      · cases hc
        obtain ⟨s', hremove, hs'⟩ := h.remove_absent hx
        exact ⟨s', by simp [State.call, hremove], hs'⟩

theorem Represents.answers {calls : List (Call Node)} {as : List (Answer Node)}
    (h : Represents s l) (hc : answers listCall l calls = some (as, l')) :
    ∃ s', FifoList.answers State.call s calls = some (as, s') ∧ Represents s' l' := by
  induction calls generalizing s l as with
  | nil =>
      cases hc
      exact ⟨s, rfl, h⟩
  | cons c calls ih =>
      obtain ⟨⟨answer, l₁⟩, hcall, hrest⟩ := Option.bind_eq_some_iff.mp hc
      obtain ⟨⟨rest, l₂⟩, hrest, he⟩ := Option.map_eq_some_iff.mp hrest
      cases he
      obtain ⟨s₁, hs, h₁⟩ := h.call hcall
      obtain ⟨s₂, hs₂, h₂⟩ := ih h₁ hrest
      refine ⟨s₂, ?_, h₂⟩
      rw [FifoList.answers, hs]
      change (FifoList.answers State.call s₁ calls).map _ = _
      rw [hs₂]
      rfl

/-- After any calls that enqueue only nodes outside the list, the memory holds the list
and the answers were those of the list. A dequeued node points nowhere, and `remove`
ends after at most two turns. -/
theorem fifoList_refines_list (next : Node → Option Node) {calls : List (Call Node)}
    {as : List (Answer Node)} (hc : answers listCall [] calls = some (as, l)) :
    ∃ s, answers State.call (initial next) calls = some (as, s) ∧ Represents s l ∧
      (s.isEmpty = true ↔ l = []) ∧
      (∀ node s', dequeue s = some (some node, s') → s'.next node = none) ∧
      ∀ x, ∃ found made s', remove s x = some (found, made, s') ∧ made ≤ 2 * l.length := by
  obtain ⟨s, hs, h⟩ := (represents_initial next).answers hc
  refine ⟨s, hs, h, h.isEmpty, fun node s' hd => ?_, fun x => ?_⟩
  · cases l with
    | nil =>
        rw [h.dequeue_nil] at hd
        cases hd
    | cons y rest =>
        obtain ⟨s₁, hdequeue, -, hnext⟩ := h.dequeue
        cases hdequeue.symm.trans hd
        exact hnext
  · by_cases hx : x ∈ l
    · obtain ⟨s', hremove, -⟩ := h.remove_present hx
      have := List.idxOf_lt_length_of_mem hx
      exact ⟨_, _, s', hremove, by omega⟩
    · obtain ⟨s', hremove, -⟩ := h.remove_absent hx
      exact ⟨_, _, s', hremove, le_rfl⟩

end Runs

section Alone

variable {Thread Node : Type*} [DecidableEq Thread] [DecidableEq Node]
  {s : ConcurrentFifoList.State Thread Node} {t : Thread} {node : Node} {m : State Node}

def memory (s : ConcurrentFifoList.State Thread Node) : State Node :=
  ⟨s.head, s.tail, s.next, s.count⟩

/-- The accesses of a thread that nobody interrupts are those of `enqueue`. -/
theorem enqueue_alone (hq : (s.pc t).isQuiet = true) (hn : s.listed node = false)
    (he : enqueue (memory s) node = some m) :
    ∃ s', (ConcurrentFifoList.system Thread Node).exec s
      (.enqueue t node :: List.replicate 5 (.advance t false)) = some s' ∧
        s'.pc t = .enqueued ∧ memory s' = m := by
  unfold FifoList.enqueue at he
  cases htail : s.tail with
  | none =>
      rw [show (memory s).tail = none from htail] at he
      obtain ⟨hh, he⟩ := Option.ite_none_right_eq_some.mp he
      cases he
      have hhead : s.head = none := hh
      simp [StepSystem.exec, ConcurrentFifoList.system, ConcurrentFifoList.step,
        ConcurrentFifoList.enqueueStep, ConcurrentFifoList.State.goto, hq, hn, htail, hhead,
        memory, State.setNext, List.replicate]
  | some oldTail =>
      rw [show (memory s).tail = some oldTail from htail] at he
      obtain ⟨hh, he⟩ := Option.ite_none_right_eq_some.mp he
      cases he
      have hnext : Function.update s.next node none oldTail = none := hh
      simp [StepSystem.exec, ConcurrentFifoList.system, ConcurrentFifoList.step,
        ConcurrentFifoList.enqueueStep, ConcurrentFifoList.State.goto, hq, hn, htail, hnext,
        memory, State.setNext, List.replicate]

/-- So it is for `dequeue`, which takes two accesses for an empty list and nine for the
last node. -/
theorem dequeue_alone {result : Option Node} (hq : (s.pc t).isQuiet = true)
    (hd : dequeue (memory s) = some (result, m)) :
    ∃ accesses s', (ConcurrentFifoList.system Thread Node).exec s
      (.dequeue t :: List.replicate accesses (.advance t false)) = some s' ∧
        s'.pc t = .dequeued result ∧ memory s' = m := by
  unfold FifoList.dequeue at hd
  cases hhead : s.head with
  | none =>
      rw [show (memory s).head = none from hhead] at hd
      obtain ⟨ht, hd⟩ := Option.ite_none_right_eq_some.mp hd
      cases hd
      have htail : s.tail = none := ht
      refine ⟨2, ?_⟩
      simp [StepSystem.exec, ConcurrentFifoList.system, ConcurrentFifoList.step,
        ConcurrentFifoList.enqueueStep, ConcurrentFifoList.dequeueStep,
        ConcurrentFifoList.State.goto, hq, hhead, htail, memory, List.replicate]
  | some oldHead =>
      rw [show (memory s).head = some oldHead from hhead] at hd
      dsimp only at hd
      cases hnext : s.next oldHead with
      | some newHead =>
          rw [show (memory s).next oldHead = some newHead from hnext] at hd
          cases hd
          refine ⟨7, ?_⟩
          simp [StepSystem.exec, ConcurrentFifoList.system, ConcurrentFifoList.step,
            ConcurrentFifoList.enqueueStep, ConcurrentFifoList.dequeueStep,
            ConcurrentFifoList.State.goto, hq, hhead, hnext, memory, State.setNext,
            List.replicate]
      | none =>
          rw [show (memory s).next oldHead = none from hnext] at hd
          obtain ⟨ht, hd⟩ := Option.ite_none_right_eq_some.mp hd
          cases hd
          have htail : s.tail = some oldHead := ht
          refine ⟨9, ?_⟩
          simp [StepSystem.exec, ConcurrentFifoList.system, ConcurrentFifoList.step,
            ConcurrentFifoList.enqueueStep, ConcurrentFifoList.dequeueStep,
            ConcurrentFifoList.State.goto, hq, hhead, hnext, htail, memory, State.setNext,
            List.replicate]

end Alone

/-- Four nodes in a row. -/
instance : Addressed (Fin 4) where
  address node := UInt64.ofNat (8 * node)
  address_injective := by decide
  aligned := by decide

/-- The second of three nodes is removed, and then a node that is not there. -/
theorem fifoList_refines_list_removed : ∃ s : State (Fin 4),
    answers State.call (initial fun _ => some 3)
      [.enqueue 0, .enqueue 1, .enqueue 2, .remove 1, .remove 3, .dequeue] =
        some ([.enqueued, .enqueued, .enqueued, .removed true, .removed false,
          .dequeued (some 2)], s) ∧ Represents s [0] := by
  have hc : answers listCall ([] : List (Fin 4))
      [.enqueue 0, .enqueue 1, .enqueue 2, .remove 1, .remove 3, .dequeue] =
        some ([.enqueued, .enqueued, .enqueued, .removed true, .removed false,
          .dequeued (some 2)], [0]) := rfl
  obtain ⟨s, hs, h, -⟩ := fifoList_refines_list (fun _ => some 3) hc
  exact ⟨s, hs, h⟩

end LevelzAsync.FifoList
