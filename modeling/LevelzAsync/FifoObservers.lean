import LevelzAsync.FifoList
import LevelzAsync.FifoOrder
import Mathlib.Algebra.BigOperators.Group.Finset.Piecewise
import Mathlib.Data.Fintype.Option

/-!
# `isEmpty`, `m_count` and `remove` while calls overlap

`isEmpty` reads `m_head`, which every `dequeue` nulls for a while, and `m_count` is
updated after the node is linked. `Observed` adds to the list the calls of `remove`,
each of which makes calls of `dequeue` and `enqueue`, and two history variables: the
nodes being enqueued to an empty queue, and whether another call has taken the node
that a `remove` is looking for.
-/

namespace LevelzAsync.ConcurrentFifoList

variable {Thread Node : Type*}

namespace State

def isEmpty (s : State Thread Node) : Bool := s.head.isNone

def takes [DecidableEq Node] (s : State Thread Node) (t : Thread) (spurious : Bool) :
    Option Node :=
  match s.pc t with
  | .casHead oldHead => if s.head = some oldHead ∧ spurious = false then some oldHead else none
  | _ => none

end State

/-- Where a call of `remove` stands between its calls of `dequeue` and `enqueue`. -/
inductive RemovePc
  | test
  | dequeuing
  | enqueuing
  | returned (found : Bool)
  deriving DecidableEq

/-- A call of `remove` with its loop bound and loop variable. -/
structure Removal (Node : Type*) where
  nodeToRemove : Node
  bound : ℕ
  made : ℕ
  pc : RemovePc
  /-- The node was in the queue when the call began, and no other call has taken it since. -/
  undisturbed : Bool

structure Observed (Thread Node : Type*) where
  list : State Thread Node
  /-- The node that the thread is enqueuing to an empty queue, between its exchange of
  `m_tail` and its `m_count++`. -/
  opening : Thread → Option Node
  removal : Thread → Option (Removal Node)

/-- `turn` is what `remove` does between two calls. -/
inductive ObservedAction (Thread Node : Type*)
  | enqueue (t : Thread) (node : Node)
  | dequeue (t : Thread)
  | remove (t : Thread) (nodeToRemove : Node)
  | advance (t : Thread) (spurious : Bool)
  | turn (t : Thread)

namespace Observed

def isFree (s : Observed Thread Node) (t : Thread) : Bool :=
  match (s.removal t).map Removal.pc with
  | none | some (.returned _) => true
  | _ => false

def inHand (s : Observed Thread Node) (t : Thread) : Option Node :=
  match (s.removal t).map Removal.pc, s.list.pc t with
  | some .dequeuing, .dequeued result => result
  | _, _ => none

/-- The thread is in the middle of enqueuing the first node of the queue, which it enqueued
to an empty queue. -/
def Opening (s : Observed Thread Node) : Prop :=
  ∃ t node, s.opening t = some node ∧ s.list.queue.head? = some node

/-- A `dequeue` has nulled `m_head` and not stored the next head, and the node behind its
own is not one that is being enqueued to an empty queue. -/
def Hidden (s : Observed Thread Node) : Prop :=
  (∃ t node, (s.list.pc t).held = some node) ∧
    ∃ node, s.list.queue.head? = some node ∧ ∀ t, s.opening t ≠ some node

variable [DecidableEq Thread]

def setRemoval (s : Observed Thread Node) (t : Thread) (r : Removal Node) :
    Observed Thread Node :=
  { s with removal := Function.update s.removal t (some r) }

variable [DecidableEq Node]

def nextOpening (s : Observed Thread Node) (t : Thread) : Option Node :=
  match s.list.pc t with
  | .swapTail node => if s.list.queue = [] then some node else none
  | .countUp => none
  | _ => s.opening t

def disturb (taken : Option Node) (r : Removal Node) : Removal Node :=
  if taken = some r.nodeToRemove then { r with undisturbed := false } else r

def advance (s : Observed Thread Node) (t : Thread) (spurious : Bool) :
    Option (Observed Thread Node) :=
  (step s.list (.advance t spurious)).map fun list =>
    { list := list
      opening := Function.update s.opening t (s.nextOpening t)
      removal := fun u =>
        if u = t then s.removal u
        else (s.removal u).map (disturb (s.list.takes t spurious)) }

/-- The loop of `remove` between its calls. -/
def turn (s : Observed Thread Node) (t : Thread) (r : Removal Node) :
    Option (Observed Thread Node) :=
  match r.pc with
  | .test =>
      if r.made < r.bound then
        (step s.list (.dequeue t)).map fun list =>
          { s.setRemoval t { r with pc := .dequeuing } with list := list }
      else some (s.setRemoval t { r with pc := .returned false })
  | .dequeuing =>
      match s.list.pc t with
      | .dequeued none => some (s.setRemoval t { r with pc := .returned false })
      | .dequeued (some node) =>
          if node = r.nodeToRemove then some (s.setRemoval t { r with pc := .returned true })
          else
            (step s.list (.enqueue t node)).map fun list =>
              { s.setRemoval t { r with pc := .enqueuing } with list := list }
      | _ => none
  | .enqueuing =>
      match s.list.pc t with
      | .enqueued => some (s.setRemoval t { r with made := r.made + 1, pc := .test })
      | _ => none
  | .returned _ => none

variable [Fintype Thread]

/-- Callers enqueue no node that a `remove` has in its hand. -/
def step (s : Observed Thread Node) : ObservedAction Thread Node → Option (Observed Thread Node)
  | .enqueue t node =>
      if s.isFree t = true ∧ ∀ u, s.inHand u ≠ some node then
        (ConcurrentFifoList.step s.list (.enqueue t node)).map fun list => { s with list := list }
      else none
  | .dequeue t =>
      if s.isFree t = true then
        (ConcurrentFifoList.step s.list (.dequeue t)).map fun list => { s with list := list }
      else none
  | .remove t nodeToRemove =>
      if s.isFree t = true ∧ (s.list.pc t).isQuiet = true then
        some (s.setRemoval t
          { nodeToRemove := nodeToRemove
            bound := (2 * s.list.count).toNat
            made := 0
            pc := .test
            undisturbed := decide (nodeToRemove ∈ s.list.queue) })
      else none
  | .advance t spurious => s.advance t spurious
  | .turn t => (s.removal t).bind (s.turn t)

end Observed

def observedSystem (Thread Node : Type*) [DecidableEq Thread] [DecidableEq Node]
    [Fintype Thread] : StepSystem (Observed Thread Node) (ObservedAction Thread Node) where
  start s := ∃ next, s = ⟨initial next, fun _ => none, fun _ => none⟩
  step := Observed.step

section Steps

variable [DecidableEq Thread] [DecidableEq Node] {s s' : Observed Thread Node} {t : Thread}
  {r : Removal Node}

inductive Observed.Turned (s : Observed Thread Node) (t : Thread) (r : Removal Node) :
    Observed Thread Node → Prop
  | dequeue {list : State Thread Node} :
      r.pc = .test → r.made < r.bound →
      ConcurrentFifoList.step s.list (.dequeue t) = some list →
      Turned s t r { s.setRemoval t { r with pc := .dequeuing } with list := list }
  | exhausted : r.pc = .test → r.bound ≤ r.made →
      Turned s t r (s.setRemoval t { r with pc := .returned false })
  | empty : r.pc = .dequeuing → s.list.pc t = .dequeued none →
      Turned s t r (s.setRemoval t { r with pc := .returned false })
  | found : r.pc = .dequeuing → s.list.pc t = .dequeued (some r.nodeToRemove) →
      Turned s t r (s.setRemoval t { r with pc := .returned true })
  | putBack {node : Node} {list : State Thread Node} :
      r.pc = .dequeuing → s.list.pc t = .dequeued (some node) → node ≠ r.nodeToRemove →
      ConcurrentFifoList.step s.list (.enqueue t node) = some list →
      Turned s t r { s.setRemoval t { r with pc := .enqueuing } with list := list }
  | round : r.pc = .enqueuing → s.list.pc t = .enqueued →
      Turned s t r (s.setRemoval t { r with made := r.made + 1, pc := .test })

theorem Observed.turned (h : s.turn t r = some s') : s.Turned t r s' := by
  unfold Observed.turn at h
  cases hr : r.pc with
  | test =>
      rw [hr] at h
      dsimp only at h
      split_ifs at h with hmade
      · obtain ⟨list, hlist, rfl⟩ := Option.map_eq_some_iff.mp h
        exact .dequeue hr hmade hlist
      · cases h
        exact .exhausted hr (not_lt.mp hmade)
  | dequeuing =>
      rw [hr] at h
      dsimp only at h
      split at h
      next hpc =>
        cases h
        exact .empty hr hpc
      next node hpc =>
        split_ifs at h with hnode
        · cases h
          exact .found hr (hnode ▸ hpc)
        · obtain ⟨list, hlist, rfl⟩ := Option.map_eq_some_iff.mp h
          exact .putBack hr hpc hnode hlist
      next => cases h
  | enqueuing =>
      rw [hr] at h
      dsimp only at h
      split at h
      next hpc =>
        cases h
        exact .round hr hpc
      next => cases h
  | returned found =>
      rw [hr] at h
      cases h

variable [Fintype Thread]

/-- The calls of `remove` add no accesses of their own. -/
theorem refines_list :
    (observedSystem Thread Node).Refines (system Thread Node) Observed.list where
  start := by
    rintro s ⟨next, rfl⟩
    exact ⟨next, rfl⟩
  step := by
    intro s a s' _ ha
    cases a with
    | enqueue t node =>
        obtain ⟨-, ha⟩ := Option.ite_none_right_eq_some.mp ha
        obtain ⟨list, hlist, rfl⟩ := Option.map_eq_some_iff.mp ha
        exact .inr ⟨.enqueue t node, hlist⟩
    | dequeue t =>
        obtain ⟨-, ha⟩ := Option.ite_none_right_eq_some.mp ha
        obtain ⟨list, hlist, rfl⟩ := Option.map_eq_some_iff.mp ha
        exact .inr ⟨.dequeue t, hlist⟩
    | remove t nodeToRemove =>
        obtain ⟨-, ha⟩ := Option.ite_none_right_eq_some.mp ha
        cases ha
        exact .inl rfl
    | advance t spurious =>
        obtain ⟨list, hlist, rfl⟩ := Option.map_eq_some_iff.mp ha
        exact .inr ⟨.advance t spurious, hlist⟩
    | turn t =>
        obtain ⟨r, -, ha⟩ := Option.bind_eq_some_iff.mp ha
        cases Observed.turned ha with
        | dequeue _ _ hlist => exact .inr ⟨.dequeue t, hlist⟩
        | putBack _ _ _ hlist => exact .inr ⟨.enqueue t _, hlist⟩
        | _ => exact .inl rfl

theorem shape_of_observed (hs : (observedSystem Thread Node).Reach s) : ∃ o, Shape s.list o :=
  shape_of_reach (refines_list.reach hs)

end Steps

section IsEmpty

variable [DecidableEq Thread] [DecidableEq Node] {s s' : Observed Thread Node} {t : Thread}
  {o : Option (Thread × Node)} {list : State Thread Node} {spurious : Bool} {node : Node}

theorem opens_of_enqueueStep {l : State Thread Node} {p : Pc Node}
    (h : enqueueStep l t p = some list) (hn : (list.pc t).opens = some node) :
    p = .swapTail node ∧ l.tail = none ∨ p = .checkHead node := by
  cases p with
  | swapTail new =>
      cases h
      cases htail : l.tail <;> simp_all [State.goto, Pc.opens]
  | checkHead new =>
      cases h
      by_cases hh : l.head = none <;> simp_all [State.goto, Pc.opens]
  | swapHead new =>
      cases h
      by_cases hh : l.head = none <;> simp [State.goto, hh, Pc.opens] at hn
  | checkOldTail new oldTail =>
      cases h
      by_cases hh : l.next oldTail = none <;> simp [State.goto, hh, Pc.opens] at hn
  | clearNext | linkOldTail | countUp =>
      cases h
      simp [State.goto, Pc.opens] at hn
  | _ => cases h

theorem opens_of_dequeueStep {l : State Thread Node} {p : Pc Node}
    (h : dequeueStep l t spurious p = some list) : (list.pc t).opens = none := by
  have hpc : ∀ q : Pc Node, (l.goto t q).pc t = q := fun _ => Function.update_self ..
  unfold dequeueStep at h
  cases p <;> dsimp only at h <;> (try split at h) <;> cases h <;>
    simp only [hpc] <;> (try split) <;> rfl

theorem Shape.moves_advance {l : State Thread Node} (hs : Shape l o)
    (h : ConcurrentFifoList.step l (.advance t spurious) = some list) :
    ∃ p, Moves l list t p := by
  rcases Option.or_eq_some_iff.mp h with he | ⟨-, hd⟩
  · exact hs.moves_enqueueStep he
  · exact hs.moves_dequeueStep hd

/-- An exchange of a null `m_tail` begins an `enqueue` to an empty queue. -/
theorem Shape.opens_advance (hs : Shape s.list o)
    (h : ConcurrentFifoList.step s.list (.advance t spurious) = some list)
    (hi : ∀ node, (s.list.pc t).opens = some node → s.opening t = some node)
    (hn : (list.pc t).opens = some node) : s.nextOpening t = some node := by
  unfold Observed.nextOpening
  rcases Option.or_eq_some_iff.mp h with he | ⟨-, hd⟩
  · rcases opens_of_enqueueStep he hn with ⟨hp, htail⟩ | hp
    · rw [hp]
      exact if_pos (hs.queue_of_tail htail)
    · rw [hp]
      exact hi node (by rw [hp]; rfl)
  · rw [opens_of_dequeueStep hd] at hn
    cases hn

/-- Every `enqueue` that found `m_tail` null is noted in the history. -/
def Observed.Announced (s : Observed Thread Node) : Prop :=
  ∀ t node, (s.list.pc t).opens = some node → s.opening t = some node

theorem Observed.Announced.begin {a : Action Thread Node}
    {removal : Thread → Option (Removal Node)} (hi : s.Announced)
    (h : ConcurrentFifoList.step s.list a = some list)
    (ha : a = .dequeue t ∨ ∃ node, a = .enqueue t node) :
    Observed.Announced ⟨list, s.opening, removal⟩ := by
  have hpc : ∃ p : Pc Node, p.opens = none ∧ list.pc = Function.update s.list.pc t p := by
    rcases ha with rfl | ⟨node, rfl⟩
    · obtain ⟨-, he⟩ := Option.ite_none_right_eq_some.mp h
      cases he
      exact ⟨.loadHead, rfl, rfl⟩
    · obtain ⟨-, he⟩ := Option.ite_none_right_eq_some.mp h
      cases he
      exact ⟨.clearNext node, rfl, rfl⟩
  obtain ⟨p, hp, hpc⟩ := hpc
  intro u first hu
  exact hi u first (other_of_none Pc.opens hp hpc hu).2

theorem Observed.Announced.advance (hi : s.Announced) (hs : Shape s.list o)
    (ha : s.advance t spurious = some s') : s'.Announced := by
  obtain ⟨list, hlist, rfl⟩ := Option.map_eq_some_iff.mp ha
  intro u first hu
  by_cases hut : u = t
  · subst hut
    change Function.update s.opening u (s.nextOpening u) u = some first
    rw [Function.update_self]
    exact hs.opens_advance hlist (hi u) hu
  · change Function.update s.opening t (s.nextOpening t) u = some first
    rw [Function.update_of_ne hut]
    obtain ⟨p, hm⟩ := hs.moves_advance hlist
    apply hi
    rwa [hm.pc, Function.update_of_ne hut] at hu

variable [Fintype Thread]

theorem announced_of_reach (hs : (observedSystem Thread Node).Reach s) : s.Announced := by
  induction hs with
  | start h =>
      obtain ⟨next, rfl⟩ := h
      exact fun t node hn => by cases hn
  | @step s s' a hr _ ha ih =>
      obtain ⟨o, ho⟩ := shape_of_observed hr
      cases a with
      | enqueue t node =>
          obtain ⟨-, ha⟩ := Option.ite_none_right_eq_some.mp ha
          obtain ⟨list, hlist, rfl⟩ := Option.map_eq_some_iff.mp ha
          exact ih.begin hlist (.inr ⟨node, rfl⟩)
      | dequeue t =>
          obtain ⟨-, ha⟩ := Option.ite_none_right_eq_some.mp ha
          obtain ⟨list, hlist, rfl⟩ := Option.map_eq_some_iff.mp ha
          exact ih.begin hlist (.inl rfl)
      | remove t nodeToRemove =>
          obtain ⟨-, ha⟩ := Option.ite_none_right_eq_some.mp ha
          cases ha
          exact ih
      | advance t spurious => exact ih.advance ho ha
      | turn t =>
          obtain ⟨r, -, ha⟩ := Option.bind_eq_some_iff.mp ha
          cases Observed.turned ha with
          | dequeue _ _ hlist => exact ih.begin hlist (.inl rfl)
          | putBack _ _ _ hlist => exact ih.begin hlist (.inr ⟨_, rfl⟩)
          | _ => exact ih

/-- `isEmpty()` is exact but while a `dequeue` hides the nodes behind its own. -/
theorem isEmpty_iff (hs : (observedSystem Thread Node).Reach s) :
    (s.list.isEmpty = true → s.list.queue = [] ∨ s.Opening) ↔ ¬ s.Hidden := by
  obtain ⟨o, ho⟩ := shape_of_observed hs
  constructor
  · rintro hexact ⟨⟨t, h, hheld⟩, node, hnode, hopening⟩
    have hhead : s.list.head = none := ho.head_held (by rw [(ho.held t h).mp hheld]; simp)
    rcases hexact (by rw [State.isEmpty, hhead]; rfl) with hq | ⟨u, first, hu, hfirst⟩
    · rw [hq] at hnode
      cases hnode
    · rw [hfirst] at hnode
      exact hopening u (by rw [hu, hnode])
  · intro hhidden hempty
    have hhead : s.list.head = none := Option.isNone_iff_eq_none.mp hempty
    cases hq : s.list.queue.head? with
    | none => exact .inl (List.head?_eq_none_iff.mp hq)
    | some node =>
        right
        by_contra hopening
        have hnone : ∀ t, s.opening t ≠ some node := fun t ht => hopening ⟨t, node, ht, hq⟩
        cases o with
        | some th => exact hhidden ⟨⟨th.1, th.2, (ho.held _ _).mpr rfl⟩, node, hq, hnone⟩
        | none =>
            rcases ho.head_free rfl with hfree | ⟨-, t, first, hfirst⟩
            · rw [hhead, hq] at hfree
              cases hfree
            · have hopens := ho.opens t first hfirst
              rw [hopens.2.2] at hq
              cases hq
              exact hnone t (announced_of_reach hs t node hfirst)

end IsEmpty

section Count

open FifoList

variable [DecidableEq Thread] [DecidableEq Node] {s s' : State Thread Node} {t t' : Thread}
  {o : Option (Thread × Node)} {node : Node}

omit [DecidableEq Thread] [DecidableEq Node] in
theorem Shape.carries_unique (hs : Shape s o) (h : (s.pc t).carries = some node)
    (h' : (s.pc t').carries = some node) : t = t' := by
  have hcases : ∀ u, (s.pc u).carries = some node →
      o = some (u, node) ∨ (s.pc u).owns = some node := by
    intro u hu
    rw [← hs.held u node]
    cases hp : s.pc u <;> simp_all [Pc.carries, Pc.held, Pc.owns]
  rcases hcases t h with ho | hown <;> rcases hcases t' h' with ho' | hown'
  · exact (Prod.mk.inj (Option.some.inj (ho.symm.trans ho'))).1
  · exact absurd (by rw [ho, State.chain_some]; exact List.mem_cons_self) (hs.owns t' node hown')
  · exact absurd (by rw [ho', State.chain_some]; exact List.mem_cons_self) (hs.owns t node hown)
  · exact hs.owns_unique t t' node hown hown'

omit [DecidableEq Thread] [DecidableEq Node] in
theorem Shape.queue_length_le [Addressed Node] (hs : Shape s o) : s.queue.length ≤ 2 ^ 61 :=
  length_le (hs.nodup.of_append_right)

variable [Fintype Thread]

omit [DecidableEq Thread] [DecidableEq Node] in
/-- No two calls have taken the same node. -/
theorem Shape.taken_le [Addressed Node] (hs : Shape s o) :
    ∑ t, (s.pc t).taken ≤ 2 ^ 61 + 1 := by
  have hcard : ∑ t, (s.pc t).taken =
      (Finset.univ.filter fun t => (s.pc t).carries.isSome = true).card := by
    rw [Finset.card_filter]
    rfl
  have hle := Finset.card_le_card_of_injOn (fun t => (s.pc t).carries.map place)
    (s := Finset.univ.filter fun t => (s.pc t).carries.isSome = true)
    (t := (Finset.univ : Finset (Option (Fin (2 ^ 61)))))
    (fun _ _ => Finset.mem_coe.mpr (Finset.mem_univ _)) ?_
  · rwa [Finset.card_univ, Fintype.card_option, Fintype.card_fin, ← hcard] at hle
  · intro t ht t' _ he
    have hsome := (Finset.mem_filter.mp (Finset.mem_coe.mp ht)).2
    obtain ⟨node, hnode⟩ := Option.isSome_iff_exists.mp hsome
    refine hs.carries_unique hnode ?_
    have he : (s.pc t).carries = (s.pc t').carries := Option.map_injective place_injective he
    rw [← he, hnode]

/-- The counter is as far behind the content as there are nodes not counted yet. -/
def Balanced (s : State Thread Node) : Prop :=
  s.count.toNat + ∑ t, (s.pc t).uncounted = s.queue.length + ∑ t, (s.pc t).taken

/-- A `dequeue` counts down only while fewer nodes are uncounted than there are nodes in the
queue or taken and not counted down. -/
def CountedFirst (s : State Thread Node) : Action Thread Node → Prop
  | .advance t _ => ∀ node, s.pc t = .countDown node →
      ∑ u, (s.pc u).uncounted < s.queue.length + ∑ u, (s.pc u).taken
  | _ => True

omit [Fintype Thread] in
theorem count_cases {a : Action Thread Node} (h : step s a = some s') :
    s'.count = s.count ∨ s'.count = s.count + 1 ∨
      s'.count = s.count - 1 ∧ ∃ t spurious node, a = .advance t spurious ∧
        s.pc t = .countDown node := by
  cases a with
  | enqueue t node =>
      obtain ⟨-, he⟩ := Option.ite_none_right_eq_some.mp h
      cases he
      exact .inl rfl
  | dequeue t =>
      obtain ⟨-, he⟩ := Option.ite_none_right_eq_some.mp h
      cases he
      exact .inl rfl
  | advance t spurious =>
      rcases Option.or_eq_some_iff.mp h with he | ⟨-, hd⟩
      · cases hp : s.pc t with
        | countUp =>
            rw [hp] at he
            cases he
            exact .inr (.inl rfl)
        | _ =>
            rw [hp] at he
            cases he <;> exact .inl rfl
      · cases hp : s.pc t with
        | countDown node =>
            rw [hp] at hd
            cases hd
            exact .inr (.inr ⟨rfl, t, spurious, node, rfl, hp⟩)
        | casHead oldHead | casTail oldHead =>
            rw [hp] at hd
            unfold dequeueStep at hd
            dsimp only at hd
            split at hd <;> cases hd <;> exact .inl rfl
        | _ =>
            rw [hp] at hd
            cases hd <;> exact .inl rfl

theorem Balanced.step [Addressed Node] {p : Pc Node} {o' : Option (Thread × Node)}
    {a : Action Thread Node} (hi : Balanced s) (hs : Shape s o) (hs' : Shape s' o')
    (hm : Moves s s' t p) (hg : CountedFirst s a) (ha : ConcurrentFifoList.step s a = some s') :
    Balanced s' := by
  have hqueue := hs.queue_length_le
  have hqueue' := hs'.queue_length_le
  have htaken := hs.taken_le
  have hu := sum_update_tally s.pc Pc.uncounted t p
  have ht := sum_update_tally s.pc Pc.taken t p
  have hone : ∀ q : Pc Node, q.uncounted ≤ 1 ∧ q.taken ≤ 1 := by
    intro q
    constructor
    · cases q <;> simp [Pc.uncounted]
    · unfold Pc.taken
      split <;> omega
  have hp := hone p
  have hold := hone (s.pc t)
  have hmod := hm.count
  unfold Balanced at *
  rw [hm.pc]
  rcases count_cases ha with hc | hc | ⟨hc, u, spurious, node, rfl, hpc⟩
  · rw [hc] at hmod ⊢
    omega
  · have : s'.count.toNat = s.count.toNat + 1 := by
      rw [hc, UInt64.toNat_add]
      exact Nat.mod_eq_of_lt (by change s.count.toNat + 1 < 2 ^ 64; omega)
    omega
  · have hpos := hg node hpc
    have : s'.count.toNat + 1 = s.count.toNat := by
      rw [hc, UInt64.toNat_sub_of_le _ _ (UInt64.le_iff_toNat_le.mpr (by change 1 ≤ _; omega))]
      change s.count.toNat - 1 + 1 = _
      omega
    omega

/-- While the counting meets the condition, `m_count` does not wrap. -/
theorem balanced_of_reach [Addressed Node]
    (hs : (system Thread Node).ReachWhile CountedFirst s) : Balanced s := by
  induction hs with
  | start h =>
      obtain ⟨next, rfl⟩ := h
      simp [Balanced, initial, State.queue, Pc.uncounted, Pc.taken, Pc.carries]
  | step hr hg ha ih =>
      obtain ⟨o, ho⟩ := shape_of_reach hr.reach
      obtain ⟨o', ho'⟩ := ho.step ha
      obtain ⟨t, p, hm⟩ := ho.moves ha
      exact ih.step ho ho' hm hg ha

theorem count_pos_iff [Addressed Node]
    (hs : (system Thread Node).ReachWhile CountedFirst s) :
    0 < s.count.toNat ↔ ∑ u, (s.pc u).uncounted < s.queue.length + ∑ u, (s.pc u).taken := by
  have := balanced_of_reach hs
  unfold Balanced at this
  omega

end Count

end LevelzAsync.ConcurrentFifoList
