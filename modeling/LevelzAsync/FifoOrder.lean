import LevelzAsync.FifoChain
import LevelzAsync.FifoObject
import Mathlib.Algebra.Order.BigOperators.Group.Finset

/-!
# First in, first out in every interleaving

The chain survives every step, so every run keeps the order of the `m_tail`
exchanges. The counter and the returned nodes are tallied over the threads: a
call that has moved a node and not yet counted it accounts for the difference.
-/

namespace LevelzAsync.ConcurrentFifoList

variable {Thread Node : Type*} [DecidableEq Thread] [DecidableEq Node]
  {s s' : State Thread Node} {o : Option (Thread × Node)} {t : Thread} {spurious : Bool}

theorem Shape.enqueueStep (hs : Shape s o)
    (h : enqueueStep s t (s.pc t) = some s') : ∃ o', Shape s' o' := by
  cases hp : s.pc t with
  | clearNext node =>
      rw [hp] at h
      cases h
      exact ⟨o, hs.clearOwned (n := node) (by rw [hp]; rfl) rfl (by rw [hp]; rfl) (by rw [hp]; rfl)
        (by rw [hp]; rfl) fun _ hn => hn⟩
  | swapTail node =>
      rw [hp] at h
      cases h
      exact ⟨o, hs.swapTail hp⟩
  | checkOldTail node oldTail =>
      rw [hp] at h
      cases h
      have hnext := (hs.link t oldTail node (by rw [hp]; rfl)).1
      rw [if_pos hnext]
      exact ⟨o, hs.goto hp rfl trivial⟩
  | linkOldTail node oldTail =>
      rw [hp] at h
      cases h
      exact ⟨o, hs.linkOldTail hp⟩
  | checkHead node =>
      rw [hp] at h
      cases h
      have hhead := (hs.opens t node (by rw [hp]; rfl)).2.1
      rw [if_pos hhead]
      exact ⟨o, hs.goto hp rfl trivial⟩
  | swapHead node =>
      rw [hp] at h
      cases h
      have hhead := (hs.opens t node (by rw [hp]; rfl)).2.1
      rw [if_pos hhead]
      exact ⟨o, hs.swapHead hp⟩
  | countUp =>
      rw [hp] at h
      cases h
      exact ⟨o, hs.frame ⟨rfl, rfl, rfl, rfl, rfl⟩ rfl (by rw [hp]; rfl) (by rw [hp]; rfl)
        (by rw [hp]; rfl) (fun _ hn => by cases hn) (fun _ hn _ => hn) trivial⟩
  | _ =>
      rw [hp] at h
      cases h

theorem Shape.dequeueStep (hs : Shape s o)
    (h : dequeueStep s t spurious (s.pc t) = some s') : ∃ o', Shape s' o' := by
  have hheadHeld : ∀ m, (s.pc t).held = some m → s.head = none := fun m hm =>
    hs.head_held (by rw [(hs.held t m).mp hm]; simp)
  cases hp : s.pc t with
  | loadHead =>
      rw [hp] at h
      cases h
      cases s.head <;>
        exact ⟨o, hs.goto hp rfl trivial⟩
  | loadTail =>
      rw [hp] at h
      cases h
      split <;>
        exact ⟨o, hs.goto hp rfl trivial⟩
  | spinHead =>
      rw [hp] at h
      cases h
      cases s.head <;>
        exact ⟨o, hs.goto hp rfl trivial⟩
  | spinTail =>
      rw [hp] at h
      cases h
      split <;>
        exact ⟨o, hs.goto hp rfl trivial⟩
  | casHead oldHead =>
      rw [hp, ConcurrentFifoList.dequeueStep] at h
      split at h
      next hcas =>
        cases h
        exact ⟨_, (hs.casHead hp hcas.1).2⟩
      next =>
        cases h
        cases s.head <;>
          exact ⟨o, hs.goto hp rfl trivial⟩
  | checkTaken oldHead =>
      rw [hp] at h
      cases h
      rw [if_pos (hheadHeld oldHead (by rw [hp]; rfl))]
      exact ⟨o, hs.goto hp rfl trivial⟩
  | loadNext oldHead =>
      rw [hp] at h
      cases h
      refine ⟨o, hs.goto hp rfl ?_⟩
      cases hn : s.next oldHead with
      | none => trivial
      | some y => exact hn
  | storeHead oldHead newHead =>
      rw [hp] at h
      cases h
      exact hs.storeHead hp
  | checkLast oldHead =>
      rw [hp] at h
      cases h
      rw [if_pos (hheadHeld oldHead (by rw [hp]; rfl))]
      exact ⟨o, hs.goto hp rfl trivial⟩
  | casTail oldHead =>
      rw [hp, ConcurrentFifoList.dequeueStep] at h
      split at h
      next htail =>
        cases h
        exact ⟨none, hs.casTail hp htail⟩
      next =>
        cases h
        exact ⟨o, hs.goto hp rfl trivial⟩
  | spinNext oldHead =>
      rw [hp] at h
      cases h
      split
      next =>
        exact ⟨o, hs.goto hp rfl trivial⟩
      next hn =>
        exact ⟨o, hs.goto hp rfl hn⟩
  | checkHandOver oldHead =>
      have hn : s.next oldHead ≠ none := by simpa only [hp, Pc.Fits] using hs.fits t
      rw [hp] at h
      cases h
      rw [if_pos (hheadHeld oldHead (by rw [hp]; rfl))]
      exact ⟨o, hs.goto hp rfl hn⟩
  | reloadNext oldHead =>
      have hn : s.next oldHead ≠ none := by simpa only [hp, Pc.Fits] using hs.fits t
      rw [hp] at h
      cases h
      exact ⟨o, hs.goto hp rfl ⟨hn, rfl⟩⟩
  | restoreHead oldHead newHead =>
      obtain ⟨hn, hnext⟩ : newHead ≠ none ∧ s.next oldHead = newHead := by
        simpa only [hp, Pc.Fits] using hs.fits t
      obtain ⟨y, rfl⟩ := Option.ne_none_iff_exists'.mp hn
      rw [hp] at h
      cases h
      exact ⟨none, hs.handOver (by rw [hp]; rfl) hnext⟩
  | clearOldHead oldHead =>
      rw [hp] at h
      cases h
      exact ⟨o, hs.clearOwned (n := oldHead) (by rw [hp]; rfl) rfl (by rw [hp]; rfl)
        (by rw [hp]; rfl) (by rw [hp]; rfl) fun _ _ => trivial⟩
  | countDown oldHead =>
      rw [hp] at h
      cases h
      refine ⟨o, hs.frame ⟨rfl, rfl, rfl, rfl, rfl⟩ rfl (by rw [hp]; rfl) (by rw [hp]; rfl)
        (by rw [hp]; rfl) (fun _ hn => by cases hn) (fun n hn hfree => ?_) trivial⟩
      have hne : n ≠ oldHead := by
        rintro rfl
        rcases hfree with hf | hf
        · exact hf (by rw [hp]; rfl)
        · cases hf
      exact (Function.update_of_ne hne ..).trans hn
  | _ =>
      rw [hp] at h
      cases h

theorem Shape.step {a : Action Thread Node} (hs : Shape s o) (h : step s a = some s') :
    ∃ o', Shape s' o' := by
  cases a with
  | enqueue t node =>
      obtain ⟨hc, he⟩ := Option.ite_none_right_eq_some.mp h
      cases he
      exact ⟨o, hs.callEnqueue hc.1 hc.2⟩
  | dequeue t =>
      obtain ⟨hq, he⟩ := Option.ite_none_right_eq_some.mp h
      cases he
      refine ⟨o, hs.goto rfl ?_ trivial⟩
      cases hp : s.pc t <;> simp_all [Pc.isQuiet, Pc.standing, Pc.held, Pc.link, Pc.opens, Pc.owns]
  | advance t spurious =>
      rcases Option.or_eq_some_iff.mp h with he | ⟨_, hd⟩
      · exact hs.enqueueStep he
      · exact hs.dequeueStep hd

omit [DecidableEq Thread] [DecidableEq Node] in
theorem shape_initial (next : Node → Option Node) :
    Shape (initial next : State Thread Node) none := by
  constructor <;>
    simp [initial, State.chain, State.queue, Pc.held, Pc.link, Pc.opens, Pc.owns, Pc.Fits]

theorem shape_of_reach (hs : (system Thread Node).Reach s) : ∃ o, Shape s o := by
  induction hs with
  | start h =>
      obtain ⟨next, rfl⟩ := h
      exact ⟨none, shape_initial next⟩
  | step _ _ ha ih =>
      obtain ⟨o, ho⟩ := ih
      exact ho.step ha

namespace Pc

/-- The call as the atomic queue sees it: an `enqueue` takes effect at the
exchange of `m_tail`, a `dequeue` at the exchange of `m_head` or at the read of
a null `m_tail`. -/
def call : Pc Node → FifoObject.Call Node
  | idle | aborted => .idle
  | clearNext node | swapTail node => .enqueuing node
  | checkOldTail _ _ | linkOldTail _ _ | checkHead _ | swapHead _ | countUp | enqueued =>
      .enqueueDone
  | loadHead | loadTail | spinHead | spinTail | casHead _ => .dequeuing
  | checkTaken h | loadNext h | storeHead h _ | checkLast h | casTail h | spinNext h
  | checkHandOver h | reloadNext h | restoreHead h _ | clearOldHead h | countDown h =>
      .dequeueDone (some h)
  | dequeued result => .dequeueDone result

def carries : Pc Node → Option Node
  | checkTaken h | loadNext h | storeHead h _ | checkLast h | casTail h | spinNext h
  | checkHandOver h | reloadNext h | restoreHead h _ | clearOldHead h | countDown h => some h
  | _ => none

/-- One for an `enqueue` that has exchanged `m_tail` and not counted its node. -/
def uncounted : Pc Node → ℕ
  | checkOldTail _ _ | linkOldTail _ _ | checkHead _ | swapHead _ | countUp => 1
  | _ => 0

def taken (p : Pc Node) : ℕ := if p.carries.isSome = true then 1 else 0

def holds (n : Node) (p : Pc Node) : ℕ := if p.carries = some n then 1 else 0

/-- Everything that the counter, the returned nodes and the calls depend on. -/
def account (p : Pc Node) : FifoObject.Call Node × ℕ × Option Node :=
  (p.call, p.uncounted, p.carries)

theorem account_eq {p : Pc Node} {c : FifoObject.Call Node} {u : ℕ} {r : Option Node}
    (hp : p.account = (c, u, r)) : p.call = c ∧ p.uncounted = u ∧
      p.taken = (if r.isSome = true then 1 else 0) ∧
      ∀ n, p.holds n = if r = some n then 1 else 0 := by
  obtain ⟨hc, hu, hr⟩ : p.call = c ∧ p.uncounted = u ∧ p.carries = r := by
    simpa only [account, Prod.mk.injEq] using hp
  exact ⟨hc, hu, by rw [taken, hr], fun n => by rw [holds, hr]⟩

end Pc

/-- What one access changes, for the counter, the returned nodes and the queue:
the thread's own share of each moves by as much as the total does. -/
structure Moves (s s' : State Thread Node) (t : Thread) (p : Pc Node) : Prop where
  pc : s'.pc = Function.update s.pc t p
  count : (s'.count.toNat + p.uncounted + s.queue.length + (s.pc t).taken) % 2 ^ 64 =
    (s.count.toNat + (s.pc t).uncounted + s'.queue.length + p.taken) % 2 ^ 64
  returned : ∀ n, s'.dequeueOrder.count n + s.returned.count n + (s.pc t).holds n =
    s.dequeueOrder.count n + s'.returned.count n + p.holds n
  call : s'.queue = s.queue ∧ (p.call = (s.pc t).call ∨ (s.pc t).call.isDone = true ∧
      (p.call = .dequeuing ∨ ∃ node, p.call = .enqueuing node)) ∨
    (s.pc t).call.effect s.queue = some (s'.queue, p.call)

section Moves

variable {p : Pc Node} {node : Node}

theorem Moves.goto {q : Pc Node} (hq : s.pc t = q) (hpc : s'.pc = Function.update s.pc t p)
    (hp : p.account = q.account) (hcount : s'.count = s.count)
    (henq : s'.enqueueOrder = s.enqueueOrder) (hdeq : s'.dequeueOrder = s.dequeueOrder)
    (hret : s'.returned = s.returned) : Moves s s' t p := by
  subst hq
  obtain ⟨hc, hu, ht, hh⟩ := Pc.account_eq hp
  have hqueue : s'.queue = s.queue := by rw [State.queue, henq, hdeq, State.queue]
  exact
    { pc := hpc
      count := by rw [hcount, hu, hqueue, ht, Pc.taken]
      returned := fun n => by rw [hdeq, hret, hh n, Pc.holds]
      call := .inl ⟨hqueue, .inl hc⟩ }

theorem Moves.begin (hq : (s.pc t).isQuiet = true)
    (hp : p.uncounted = 0 ∧ p.carries = none)
    (hcall : p.call = .dequeuing ∨ ∃ n, p.call = .enqueuing n)
    (hpc : s'.pc = Function.update s.pc t p) (hcount : s'.count = s.count)
    (henq : s'.enqueueOrder = s.enqueueOrder) (hdeq : s'.dequeueOrder = s.dequeueOrder)
    (hret : s'.returned = s.returned) : Moves s s' t p := by
  have hqueue : s'.queue = s.queue := by rw [State.queue, henq, hdeq, State.queue]
  obtain ⟨hu, hr, hd⟩ : (s.pc t).uncounted = 0 ∧ (s.pc t).carries = none ∧
      (s.pc t).call.isDone = true := by
    cases hold : s.pc t <;>
      simp_all [Pc.isQuiet, Pc.uncounted, Pc.carries, Pc.call, FifoObject.Call.isDone]
  exact
    { pc := hpc
      count := by rw [hcount, hu, hp.1, hqueue, Pc.taken, Pc.taken, hr, hp.2]
      returned := fun n => by rw [hdeq, hret, Pc.holds, Pc.holds, hr, hp.2]
      call := .inl ⟨hqueue, .inr ⟨hd, hcall⟩⟩ }

theorem Moves.push (hs : Shape s o)
    (hold : (s.pc t).account = (.enqueuing node, 0, none))
    (hnew : p.account = (.enqueueDone, 1, none)) (hpc : s'.pc = Function.update s.pc t p)
    (hcount : s'.count = s.count) (henq : s'.enqueueOrder = s.enqueueOrder ++ [node])
    (hdeq : s'.dequeueOrder = s.dequeueOrder) (hret : s'.returned = s.returned) :
    Moves s s' t p := by
  obtain ⟨hc, hu, ht, hh⟩ := Pc.account_eq hold
  obtain ⟨hc', hu', ht', hh'⟩ := Pc.account_eq hnew
  have hqueue := hs.queue_concat henq hdeq
  refine ⟨hpc, ?_, fun n => by rw [hdeq, hret, hh, hh'], .inr ?_⟩
  · rw [hcount, hu, hu', ht, ht', hqueue, List.length_append, List.length_singleton]
    congr 1
    omega
  · rw [hc, hc', hqueue]
    rfl

theorem Moves.pop {rest : List Node} (hq : s.queue = node :: rest)
    (hold : (s.pc t).account = (.dequeuing, 0, none))
    (hnew : p.account = (.dequeueDone (some node), 0, some node))
    (hpc : s'.pc = Function.update s.pc t p) (hcount : s'.count = s.count)
    (henq : s'.enqueueOrder = s.enqueueOrder)
    (hdeq : s'.dequeueOrder = s.dequeueOrder ++ [node]) (hret : s'.returned = s.returned) :
    Moves s s' t p := by
  obtain ⟨hc, hu, ht, hh⟩ := Pc.account_eq hold
  obtain ⟨hc', hu', ht', hh'⟩ := Pc.account_eq hnew
  have hqueue := State.queue_tail henq hdeq
  refine ⟨hpc, ?_, fun n => ?_, .inr ?_⟩
  · rw [hcount, hu, hu', ht, ht', hqueue, hq, List.length_cons, List.tail_cons]
    congr 1
  · rw [hdeq, hret, hh, hh', List.count_append, List.count_singleton]
    by_cases hn : node = n
    · simp [hn]
      omega
    · simp [hn]
  · rw [hc, hc', hqueue, hq]
    rfl

theorem Moves.empty (hq : s.queue = []) (hold : (s.pc t).account = (.dequeuing, 0, none)) :
    Moves s (s.goto t (.dequeued none)) t (.dequeued none) := by
  obtain ⟨hc, hu, ht, hh⟩ := Pc.account_eq hold
  refine ⟨rfl, ?_, fun n => ?_, .inr ?_⟩
  · rw [hu, ht]
    rfl
  · rw [hh]
    rfl
  · rw [hc, hq]
    change some ([], _) = some (s.queue, _)
    rw [hq]
    rfl

theorem Moves.countUp (hp : s.pc t = .countUp) :
    Moves s { s.goto t .enqueued with count := s.count + 1 } t .enqueued := by
  refine ⟨rfl, ?_, fun n => ?_, .inl ⟨rfl, .inl (by rw [hp]; rfl)⟩⟩
  · rw [hp, UInt64.toNat_add]
    simp only [Pc.uncounted, Pc.taken, Pc.carries, UInt64.toNat_one, State.queue, State.goto,
      Option.isSome_none, Bool.false_eq_true, if_false]
    omega
  · rw [hp]
    rfl

theorem Moves.countDown (hp : s.pc t = .countDown node) :
    Moves s { s.goto t (.dequeued (some node)) with
      count := s.count - 1
      listed := Function.update s.listed node false
      returned := s.returned ++ [node] } t (.dequeued (some node)) := by
  refine ⟨rfl, ?_, fun n => ?_, .inl ⟨rfl, .inl (by rw [hp]; rfl)⟩⟩
  · rw [hp, UInt64.toNat_sub]
    simp only [Pc.uncounted, Pc.taken, Pc.carries, UInt64.toNat_one, State.queue, State.goto,
      Option.isSome_some, Option.isSome_none, Bool.false_eq_true, if_true, if_false]
    omega
  · rw [hp]
    simp only [Pc.holds, Pc.carries, State.goto, List.count_append, List.count_singleton]
    by_cases hn : node = n
    · simp [hn]
      omega
    · simp [hn]

theorem Shape.moves_enqueueStep (hs : Shape s o)
    (h : ConcurrentFifoList.enqueueStep s t (s.pc t) = some s') : ∃ p, Moves s s' t p := by
  cases hp : s.pc t with
  | clearNext node =>
      rw [hp] at h
      cases h
      exact ⟨_, .goto hp rfl rfl rfl rfl rfl rfl⟩
  | swapTail node =>
      rw [hp] at h
      cases h
      cases s.tail <;>
        exact ⟨_, .push hs (by rw [hp]; rfl) rfl rfl rfl rfl rfl rfl⟩
  | checkOldTail node oldTail =>
      have hnext := (hs.link t oldTail node (by rw [hp]; rfl)).1
      rw [hp, ConcurrentFifoList.enqueueStep, if_pos hnext] at h
      cases h
      exact ⟨_, .goto hp rfl rfl rfl rfl rfl rfl⟩
  | linkOldTail node oldTail =>
      rw [hp] at h
      cases h
      exact ⟨_, .goto hp rfl rfl rfl rfl rfl rfl⟩
  | checkHead node =>
      have hhead := (hs.opens t node (by rw [hp]; rfl)).2.1
      rw [hp, ConcurrentFifoList.enqueueStep, if_pos hhead] at h
      cases h
      exact ⟨_, .goto hp rfl rfl rfl rfl rfl rfl⟩
  | swapHead node =>
      have hhead := (hs.opens t node (by rw [hp]; rfl)).2.1
      rw [hp, ConcurrentFifoList.enqueueStep, if_pos hhead] at h
      cases h
      exact ⟨_, .goto hp rfl rfl rfl rfl rfl rfl⟩
  | countUp =>
      rw [hp] at h
      cases h
      exact ⟨_, .countUp hp⟩
  | _ =>
      rw [hp] at h
      cases h

theorem Shape.moves_dequeueStep (hs : Shape s o)
    (h : ConcurrentFifoList.dequeueStep s t spurious (s.pc t) = some s') :
    ∃ p, Moves s s' t p := by
  have hheld : ∀ m, (s.pc t).held = some m → s.head = none := fun m hm =>
    hs.head_held (by rw [(hs.held t m).mp hm]; simp)
  cases hp : s.pc t with
  | loadHead =>
      rw [hp] at h
      cases h
      cases s.head <;> exact ⟨_, .goto hp rfl rfl rfl rfl rfl rfl⟩
  | loadTail =>
      rw [hp] at h
      cases h
      split
      next htail => exact ⟨_, .empty (hs.queue_of_tail htail) (by rw [hp]; rfl)⟩
      next => exact ⟨_, .goto hp rfl rfl rfl rfl rfl rfl⟩
  | spinHead =>
      rw [hp] at h
      cases h
      cases s.head <;> exact ⟨_, .goto hp rfl rfl rfl rfl rfl rfl⟩
  | spinTail =>
      rw [hp] at h
      cases h
      split
      next htail => exact ⟨_, .empty (hs.queue_of_tail htail) (by rw [hp]; rfl)⟩
      next => exact ⟨_, .goto hp rfl rfl rfl rfl rfl rfl⟩
  | casHead oldHead =>
      rw [hp, ConcurrentFifoList.dequeueStep] at h
      split at h
      next hcas =>
        cases h
        obtain ⟨_, ⟨rest, hrest⟩, _⟩ := hs.queue_of_head hcas.1
        exact ⟨_, .pop hrest (by rw [hp]; rfl) rfl rfl rfl rfl rfl rfl⟩
      next =>
        cases h
        cases s.head <;> exact ⟨_, .goto hp rfl rfl rfl rfl rfl rfl⟩
  | checkTaken oldHead =>
      rw [hp, ConcurrentFifoList.dequeueStep, if_pos (hheld oldHead (by rw [hp]; rfl))] at h
      cases h
      exact ⟨_, .goto hp rfl rfl rfl rfl rfl rfl⟩
  | loadNext oldHead =>
      rw [hp] at h
      cases h
      exact ⟨_, .goto hp rfl rfl rfl rfl rfl rfl⟩
  | storeHead oldHead newHead =>
      rw [hp] at h
      cases h
      cases newHead <;> exact ⟨_, .goto hp rfl rfl rfl rfl rfl rfl⟩
  | checkLast oldHead =>
      rw [hp, ConcurrentFifoList.dequeueStep, if_pos (hheld oldHead (by rw [hp]; rfl))] at h
      cases h
      exact ⟨_, .goto hp rfl rfl rfl rfl rfl rfl⟩
  | casTail oldHead =>
      rw [hp, ConcurrentFifoList.dequeueStep] at h
      split at h <;> cases h <;> exact ⟨_, .goto hp rfl rfl rfl rfl rfl rfl⟩
  | spinNext oldHead =>
      rw [hp] at h
      cases h
      by_cases hn : s.next oldHead = none
      · rw [if_pos hn]
        exact ⟨_, .goto hp rfl rfl rfl rfl rfl rfl⟩
      · rw [if_neg hn]
        exact ⟨_, .goto hp rfl rfl rfl rfl rfl rfl⟩
  | checkHandOver oldHead =>
      rw [hp, ConcurrentFifoList.dequeueStep, if_pos (hheld oldHead (by rw [hp]; rfl))] at h
      cases h
      exact ⟨_, .goto hp rfl rfl rfl rfl rfl rfl⟩
  | reloadNext oldHead =>
      rw [hp] at h
      cases h
      exact ⟨_, .goto hp rfl rfl rfl rfl rfl rfl⟩
  | restoreHead oldHead newHead =>
      rw [hp] at h
      cases h
      exact ⟨_, .goto hp rfl rfl rfl rfl rfl rfl⟩
  | clearOldHead oldHead =>
      rw [hp] at h
      cases h
      exact ⟨_, .goto hp rfl rfl rfl rfl rfl rfl⟩
  | countDown oldHead =>
      rw [hp] at h
      cases h
      exact ⟨_, .countDown hp⟩
  | _ =>
      rw [hp] at h
      cases h

theorem Shape.moves {a : Action Thread Node} (hs : Shape s o)
    (h : ConcurrentFifoList.step s a = some s') : ∃ t p, Moves s s' t p := by
  cases a with
  | enqueue t node =>
      obtain ⟨hc, he⟩ := Option.ite_none_right_eq_some.mp h
      cases he
      exact ⟨t, _, .begin hc.1 ⟨rfl, rfl⟩ (.inr ⟨node, rfl⟩) rfl rfl rfl rfl rfl⟩
  | dequeue t =>
      obtain ⟨hq, he⟩ := Option.ite_none_right_eq_some.mp h
      cases he
      exact ⟨t, _, .begin hq ⟨rfl, rfl⟩ (.inl rfl) rfl rfl rfl rfl rfl⟩
  | advance t spurious =>
      rcases Option.or_eq_some_iff.mp h with he | ⟨_, hd⟩
      · exact ⟨t, hs.moves_enqueueStep he⟩
      · exact ⟨t, hs.moves_dequeueStep hd⟩

end Moves

def State.abstraction (s : State Thread Node) : FifoObject.State Thread Node where
  queue := s.queue
  call t := (s.pc t).call

/-- The list is a linearizable queue: its atomic accesses refine the atomic
object, under the order of the exchanges of `m_tail`. -/
theorem refines_fifoObject :
    (system Thread Node).Refines (FifoObject.system Thread Node) State.abstraction where
  start := by
    rintro s ⟨next, rfl⟩
    exact ⟨rfl, fun _ => rfl⟩
  step := by
    intro s a s' hs ha
    obtain ⟨o, ho⟩ := shape_of_reach hs
    obtain ⟨t, p, hm⟩ := ho.moves ha
    have hcall : s'.abstraction.call =
        Function.update s.abstraction.call t p.call := by
      funext t'
      change (s'.pc t').call = _
      rw [hm.pc]
      exact Function.apply_update (fun _ => Pc.call) s.pc t p t'
    have habs : s'.abstraction =
        ⟨s'.queue, Function.update s.abstraction.call t p.call⟩ := by rw [← hcall]; rfl
    rw [habs]
    rcases hm.call with ⟨hq, hc | ⟨hd, hc | ⟨node, hc⟩⟩⟩ | he
    · left
      rw [hc, hq]
      exact congrArg (FifoObject.State.mk s.queue)
        (Function.update_eq_self t s.abstraction.call)
    · refine .inr ⟨.dequeue t, ?_⟩
      rw [hc, hq]
      exact if_pos hd
    · refine .inr ⟨.enqueue t node, ?_⟩
      rw [hc, hq]
      exact if_pos hd
    · refine .inr ⟨.effect t, ?_⟩
      exact congrArg (Option.map _) he

section Tallies

variable [Fintype Thread]

structure Tallied (s : State Thread Node) : Prop where
  count : (s.count.toNat + ∑ t, (s.pc t).uncounted) % 2 ^ 64 =
    (s.queue.length + ∑ t, (s.pc t).taken) % 2 ^ 64
  returned : ∀ n, s.dequeueOrder.count n = s.returned.count n + ∑ t, (s.pc t).holds n

theorem Tallied.step (hi : Tallied s) {p : Pc Node} (hm : Moves s s' t p) : Tallied s' := by
  constructor
  · have hu := sum_update_tally s.pc Pc.uncounted t p
    have ht := sum_update_tally s.pc Pc.taken t p
    have hc := hi.count
    have hstep := hm.count
    rw [hm.pc]
    omega
  · intro n
    have hh := sum_update_tally s.pc (Pc.holds n) t p
    have hr := hi.returned n
    have hstep := hm.returned n
    rw [hm.pc]
    omega

theorem tallied_of_reach (hs : (system Thread Node).Reach s) : Tallied s := by
  induction hs with
  | start h =>
      obtain ⟨next, rfl⟩ := h
      constructor
      · simp [initial, State.queue, Pc.uncounted, Pc.taken, Pc.carries]
      · simp [initial, Pc.holds, Pc.carries]
  | step hr _ ha ih =>
      obtain ⟨o, ho⟩ := shape_of_reach hr
      obtain ⟨t, p, hm⟩ := ho.moves ha
      exact ih.step hm

end Tallies

/-- A `dequeue` that ends with a null answer has just read a null tail. -/
theorem Moves.queue_empty {p : Pc Node} (hm : Moves s s' t p) {t' : Thread}
    (hold : s.pc t' ≠ .dequeued none) (hnew : s'.pc t' = .dequeued none) : s.queue = [] := by
  obtain rfl : t' = t := by
    by_contra ht
    rw [hm.pc, Function.update_of_ne ht] at hnew
    exact hold hnew
  rw [hm.pc, Function.update_self] at hnew
  subst hnew
  rcases hm.call with ⟨_, hc | ⟨_, hc | ⟨_, hc⟩⟩⟩ | he
  · cases hp : s.pc t' <;> simp_all [Pc.call]
  · cases hc
  · cases hc
  · cases hp : s.pc t' <;> simp_all [Pc.call, FifoObject.Call.effect]

omit [DecidableEq Thread] [DecidableEq Node] in
/-- With no call in flight the next pointers lead from head to tail. -/
theorem Shape.quiet (hs : Shape s o) (hq : ∀ t, (s.pc t).isQuiet = true) :
    s.head = s.queue.head? ∧ s.tail = s.queue.getLast? ∧
      s.queue.IsChain fun x y => s.next x = some y := by
  have hnone : ∀ t, (s.pc t).held = none ∧ (s.pc t).link = none ∧ (s.pc t).opens = none := by
    intro t
    have := hq t
    cases hp : s.pc t <;> simp_all [Pc.isQuiet, Pc.held, Pc.link, Pc.opens]
  obtain rfl : o = none := by
    cases o with
    | none => rfl
    | some th =>
        have := (hs.held th.1 th.2).mpr rfl
        rw [(hnone th.1).1] at this
        cases this
  refine ⟨?_, hs.tail, hs.linked.imp fun x y hxy => ?_⟩
  · rcases hs.head_free rfl with hh | ⟨_, t, n, hn⟩
    · exact hh
    · rw [(hnone t).2.2] at hn
      cases hn
  · rcases hxy with hxy | ⟨t, ht⟩
    · exact hxy
    · rw [(hnone t).2.1] at ht
      cases ht

omit [DecidableEq Thread] in
theorem Tallied.quiet [Fintype Thread] (hi : Tallied s) (hq : ∀ t, (s.pc t).isQuiet = true) :
    s.count = UInt64.ofNat s.queue.length := by
  have hzero : ∀ t, (s.pc t).uncounted = 0 ∧ (s.pc t).taken = 0 := by
    intro t
    have := hq t
    cases hp : s.pc t <;> simp_all [Pc.isQuiet, Pc.uncounted, Pc.taken, Pc.carries]
  have hu : ∑ t, (s.pc t).uncounted = 0 := Finset.sum_eq_zero fun t _ => (hzero t).1
  have ht : ∑ t, (s.pc t).taken = 0 := Finset.sum_eq_zero fun t _ => (hzero t).2
  have hc := hi.count
  rw [hu, ht, Nat.add_zero, Nat.add_zero, Nat.mod_eq_of_lt s.count.toNat_lt] at hc
  rw [← UInt64.toNat_inj, hc, UInt64.toNat_ofNat']

/-- One FIFO queue in the order of the `m_tail` exchanges, for every number of
threads and every interleaving: the list refines the atomic queue, no assert
fails, what was enqueued and not dequeued is on the chain, dequeued nodes are
returned once, a null answer is given at an empty queue, and between calls the
counter is the length. -/
theorem concurrentFifoList_is_fifo_queue [Fintype Thread] :
    (system Thread Node).Refines (FifoObject.system Thread Node) State.abstraction ∧
    ∀ s, (system Thread Node).Reach s →
      (∀ t, s.pc t ≠ .aborted) ∧
      s.enqueueOrder = s.dequeueOrder ++ s.queue ∧
      (∀ n, s.dequeueOrder.count n = s.returned.count n + ∑ t, (s.pc t).holds n) ∧
      (∃ o, (∀ t h, (s.pc t).held = some h ↔ o = some (t, h)) ∧ (s.chain o).Nodup ∧
        (s.chain o).IsChain s.Linked ∧ s.tail = (s.chain o).getLast?) ∧
      (∀ a s' t, (system Thread Node).step s a = some s' → s.pc t ≠ .dequeued none →
        s'.pc t = .dequeued none → s.queue = []) ∧
      ((∀ t, (s.pc t).isQuiet = true) →
        s.count = UInt64.ofNat s.queue.length ∧ s.head = s.queue.head? ∧
        s.tail = s.queue.getLast? ∧ s.queue.IsChain fun x y => s.next x = some y) := by
  refine ⟨refines_fifoObject, fun s hs => ?_⟩
  obtain ⟨o, ho⟩ := shape_of_reach hs
  have hi := tallied_of_reach hs
  refine ⟨fun t ht => ?_, ho.order, hi.returned, ⟨o, ho.held, ho.nodup, ho.linked, ho.tail⟩,
    fun a s' t ha hold hnew => ?_, fun hq => ⟨hi.quiet hq, ho.quiet hq⟩⟩
  · simpa only [ht, Pc.Fits] using ho.fits t
  · obtain ⟨_, _, hm⟩ := ho.moves ha
    exact hm.queue_empty hold hnew

/-- Two threads: one enqueues node 7 while the other finds the list empty at
first and then takes the node. -/
theorem concurrentFifoList_is_fifo_queue_two_threads :
    ∃ s : State (Fin 2) (Fin 9), (system (Fin 2) (Fin 9)).Reach s ∧ s.returned = [7] ∧
      s.count = UInt64.ofNat s.queue.length := by
  let run : List (Action (Fin 2) (Fin 9)) :=
    [.enqueue 0 7, .advance 0 false, .dequeue 1, .advance 1 false, .advance 0 false,
      .advance 1 false, .advance 0 false, .advance 0 false, .advance 1 false] ++
      List.replicate 8 (.advance 1 false) ++ [.advance 0 false]
  obtain ⟨s, hr, hreturned, hquiet⟩ :=
    StepSystem.Reach.exists_of_exec (M := system (Fin 2) (Fin 9))
      (P := fun s => s.returned = [7] ∧ ∀ t, (s.pc t).isQuiet = true)
      (s := initial fun _ => none) (.start ⟨_, rfl⟩) run (by decide)
  exact ⟨s, hr, hreturned, ((concurrentFifoList_is_fifo_queue.2 s hr).2.2.2.2.2 hquiet).1⟩

end LevelzAsync.ConcurrentFifoList
