import LevelzAsync.FifoObservers

/-!
# A `remove` that nobody disturbs finds its node

In each round `remove` moves the first node of the queue to its end, and other calls only
bring the wanted node nearer to the front, unless they take it. So the rounds are enough
if twice the `m_count` that `remove` reads exceeds the number of nodes before its own,
which `m_count` does not guarantee.
-/

namespace LevelzAsync.ConcurrentFifoList

variable {Thread Node : Type*} [DecidableEq Thread] [DecidableEq Node]

section Queue

variable {q q' l : List Node} {taken : Option Node} {x node : Node}

/-- Unless the node is taken, it stays in the queue and comes no further from its front. -/
theorem idxOf_le_of_moved (h : q ++ l = taken.toList ++ q') (hx : x ∈ q)
    (hne : taken ≠ some x) : x ∈ q' ∧ q'.idxOf x ≤ q.idxOf x := by
  cases taken with
  | none =>
      obtain rfl : q ++ l = q' := h
      exact ⟨List.mem_append_left l hx, (List.idxOf_append_of_mem hx).le⟩
  | some node =>
      obtain ⟨q, rfl⟩ : ∃ rest, q = node :: rest := by
        cases q with
        | nil => cases hx
        | cons first rest => exact ⟨rest, by rw [(List.cons.inj h).1]⟩
      obtain rfl : q ++ l = q' := (List.cons.inj h).2
      have hnode : node ≠ x := fun he => hne (he ▸ rfl)
      have hx : x ∈ q := (List.mem_cons.mp hx).resolve_left hnode.symm
      refine ⟨List.mem_append_left l hx, ?_⟩
      rw [List.idxOf_append_of_mem hx, List.idxOf_cons_ne q hnode]
      omega

end Queue

def Pc.enqueues (p : Pc Node) : Bool :=
  match p.call with
  | .enqueuing _ | .enqueueDone => true
  | _ => false

/-- While the node is to be found: how many rounds are left for the nodes before it. -/
def Removal.Ahead (r : Removal Node) (p : Pc Node) (q : List Node) : Prop :=
  match r.pc with
  | .test => p.isQuiet = true ∧ r.nodeToRemove ∈ q ∧ q.idxOf r.nodeToRemove + r.made < r.bound
  | .dequeuing =>
      match p.call with
      | .dequeuing => r.nodeToRemove ∈ q ∧ q.idxOf r.nodeToRemove + r.made < r.bound
      | .dequeueDone (some node) =>
          r.made < r.bound ∧ (node = r.nodeToRemove ∨
            r.nodeToRemove ∈ q ∧ q.idxOf r.nodeToRemove + r.made + 1 < r.bound)
      | _ => False
  | .enqueuing =>
      p.enqueues = true ∧ r.nodeToRemove ∈ q ∧
        q.idxOf r.nodeToRemove + r.made + 1 < r.bound
  | .returned found => found = true

section Ahead

variable {r : Removal Node} {p : Pc Node} {q q' l : List Node} {taken : Option Node}

/-- Steps of other threads that do not take the node. -/
theorem Removal.Ahead.moved (hr : r.Ahead p q) (h : q ++ l = taken.toList ++ q')
    (hne : taken ≠ some r.nodeToRemove) : r.Ahead p q' := by
  have hkeep : ∀ k, r.nodeToRemove ∈ q ∧ q.idxOf r.nodeToRemove + k < r.bound →
      r.nodeToRemove ∈ q' ∧ q'.idxOf r.nodeToRemove + k < r.bound := by
    rintro k ⟨hx, hk⟩
    obtain ⟨hx', hle⟩ := idxOf_le_of_moved h hx hne
    exact ⟨hx', by omega⟩
  unfold Removal.Ahead at hr ⊢
  cases hpc : r.pc with
  | test =>
      rw [hpc] at hr
      exact ⟨hr.1, hkeep r.made hr.2⟩
  | dequeuing =>
      rw [hpc] at hr
      dsimp only at hr ⊢
      split at hr
      next => exact hkeep r.made hr
      next => exact ⟨hr.1, hr.2.imp_right (hkeep (r.made + 1))⟩
      next => exact hr
  | enqueuing =>
      rw [hpc] at hr
      exact ⟨hr.1, hkeep (r.made + 1) hr.2⟩
  | returned found =>
      rw [hpc] at hr
      exact hr

end Ahead

section Advance

variable {s s' : State Thread Node} {o : Option (Thread × Node)} {t : Thread} {spurious : Bool}
  {node : Node}

/-- One access appends at most one node to each order. -/
theorem orders_of_advance (h : step s (.advance t spurious) = some s') :
    (∃ l, s'.enqueueOrder = s.enqueueOrder ++ l) ∧
      s'.dequeueOrder = s.dequeueOrder ++ (s.takes t spurious).toList := by
  rcases Option.or_eq_some_iff.mp h with he | ⟨-, hd⟩
  · have htakes : s.takes t spurious = none := by
      unfold State.takes
      split
      next oldHead hp =>
        rw [hp] at he
        cases he
      next => rfl
    rw [htakes, Option.toList_none, List.append_nil]
    unfold enqueueStep at he
    split at he
    next => cases he; exact ⟨⟨[], (List.append_nil _).symm⟩, rfl⟩
    next new _ => cases he; exact ⟨⟨[new], rfl⟩, rfl⟩
    next => cases he; exact ⟨⟨[], (List.append_nil _).symm⟩, rfl⟩
    next => cases he; exact ⟨⟨[], (List.append_nil _).symm⟩, rfl⟩
    next => cases he; exact ⟨⟨[], (List.append_nil _).symm⟩, rfl⟩
    next => cases he; exact ⟨⟨[], (List.append_nil _).symm⟩, rfl⟩
    next => cases he; exact ⟨⟨[], (List.append_nil _).symm⟩, rfl⟩
    next => cases he
  · suffices s'.enqueueOrder = s.enqueueOrder ∧
        s'.dequeueOrder = s.dequeueOrder ++ (s.takes t spurious).toList from
      ⟨⟨[], this.1.trans (List.append_nil _).symm⟩, this.2⟩
    unfold State.takes
    cases hp : s.pc t with
    | casHead oldHead =>
        rw [hp] at hd
        unfold dequeueStep at hd
        dsimp only at hd ⊢
        split_ifs at hd ⊢ with hcas
        · cases hd
          exact ⟨rfl, rfl⟩
        · cases hd
          exact ⟨rfl, (List.append_nil _).symm⟩
    | casTail oldHead =>
        rw [hp] at hd
        unfold dequeueStep at hd
        dsimp only at hd
        split_ifs at hd <;> cases hd <;> exact ⟨rfl, (List.append_nil _).symm⟩
    | _ =>
        rw [hp] at hd
        cases hd <;> exact ⟨rfl, (List.append_nil _).symm⟩

theorem Shape.queue_advance (hs : Shape s o)
    (h : ConcurrentFifoList.step s (.advance t spurious) = some s') :
    ∃ l, s.queue ++ l = (s.takes t spurious).toList ++ s'.queue := by
  obtain ⟨o', hs'⟩ := hs.step h
  obtain ⟨⟨l, henq⟩, hdeq⟩ := orders_of_advance h
  refine ⟨l, ?_⟩
  have horder := hs'.order
  rw [henq, hdeq, hs.order, List.append_assoc, List.append_assoc] at horder
  exact List.append_cancel_left horder

theorem isDone_of_advance (h : step s (.advance t spurious) = some s')
    (hdone : (s.pc t).call.isDone = true) : (s'.pc t).call.isDone = true := by
  have hpc : ∀ q : Pc Node, (s.goto t q).pc t = q := fun _ => Function.update_self ..
  rcases Option.or_eq_some_iff.mp h with he | ⟨-, hd⟩
  · unfold enqueueStep at he
    split at he
    next hp => rw [hp] at hdone; cases hdone
    next hp => rw [hp] at hdone; cases hdone
    next => cases he; rw [hpc]; split <;> rfl
    next => cases he; exact congrArg (fun q => q.call.isDone) (hpc .countUp)
    next => cases he; rw [hpc]; split <;> rfl
    next => cases he; simp only [hpc]; split <;> rfl
    next => cases he; exact congrArg (fun q => q.call.isDone) (hpc .enqueued)
    next => cases he
  · unfold dequeueStep at hd
    cases hp : s.pc t <;> rw [hp] at hd hdone <;> dsimp only at hd <;> (try cases hdone) <;>
      (try split at hd) <;> cases hd <;> simp only [hpc] <;> rfl

theorem Shape.call_advance (hs : Shape s o)
    (h : ConcurrentFifoList.step s (.advance t spurious) = some s') :
    s'.queue = s.queue ∧ (s'.pc t).call = (s.pc t).call ∨
      (s.pc t).call.effect s.queue = some (s'.queue, (s'.pc t).call) := by
  obtain ⟨p, hm⟩ := hs.moves_advance h
  have hp : s'.pc t = p := by rw [hm.pc, Function.update_self]
  rw [hp]
  rcases hm.call with ⟨hq, hc | ⟨hdone, hc⟩⟩ | he
  · exact .inl ⟨hq, hc⟩
  · have hdone' := isDone_of_advance h hdone
    rw [hp] at hdone'
    rcases hc with hc | ⟨node, hc⟩ <;>
      · rw [hc] at hdone'
        cases hdone'
  · exact .inr he

end Advance

section Rounds

variable {s s' : State Thread Node} {o : Option (Thread × Node)} {t : Thread} {spurious : Bool}
  {r : Removal Node}

theorem not_quiet_of_advance (h : step s (.advance t spurious) = some s') :
    (s.pc t).isQuiet = false := by
  change (enqueueStep s t (s.pc t)).or (dequeueStep s t spurious (s.pc t)) = some s' at h
  cases hp : s.pc t with
  | idle | enqueued | dequeued _ =>
      rw [hp] at h
      cases h
  | _ => rfl

theorem Removal.Ahead.advance (hr : r.Ahead (s.pc t) s.queue) (hs : Shape s o)
    (h : ConcurrentFifoList.step s (.advance t spurious) = some s') :
    r.Ahead (s'.pc t) s'.queue := by
  obtain ⟨l, hmoved⟩ := hs.queue_advance h
  have hcall := hs.call_advance h
  unfold Removal.Ahead at hr ⊢
  cases hpc : r.pc with
  | test =>
      rw [hpc] at hr
      have hquiet := not_quiet_of_advance h
      rw [hr.1] at hquiet
      cases hquiet
  | dequeuing =>
      rw [hpc] at hr
      dsimp only at hr ⊢
      rcases hcall with ⟨hq, hc⟩ | heffect
      · rw [hq, hc]
        exact hr
      · cases hc : (s.pc t).call with
        | dequeuing =>
            rw [hc] at hr heffect
            dsimp only at hr
            obtain ⟨hx, hmade⟩ := hr
            cases hq : s.queue with
            | nil =>
                rw [hq] at hx
                cases hx
            | cons node rest =>
                rw [hq] at heffect hx hmade
                obtain ⟨hq', hc'⟩ := Prod.mk.inj (Option.some.inj heffect)
                rw [← hc', ← hq']
                refine ⟨by omega, ?_⟩
                by_cases hnode : node = r.nodeToRemove
                · exact .inl hnode
                · right
                  rw [List.idxOf_cons_ne rest hnode] at hmade
                  exact ⟨(List.mem_cons.mp hx).resolve_left (Ne.symm hnode), by
                    change rest.idxOf r.nodeToRemove + _ + 1 < _
                    omega⟩
        | _ =>
            rw [hc] at hr heffect
            first | exact hr.elim | cases heffect
  | enqueuing =>
      rw [hpc] at hr
      dsimp only at hr ⊢
      have htakes : s.takes t spurious = none := by
        unfold State.takes
        split
        next oldHead hp =>
          rw [hp] at hr
          cases hr.1
        next => rfl
      rw [htakes] at hmoved
      obtain ⟨hx, hle⟩ := idxOf_le_of_moved hmoved hr.2.1 nofun
      refine ⟨?_, hx, by omega⟩
      have henqueues := hr.1
      unfold Pc.enqueues at henqueues ⊢
      rcases hcall with ⟨-, hc⟩ | heffect
      · rwa [hc]
      · cases hold : (s.pc t).call with
        | enqueuing node =>
            rw [hold] at heffect
            rw [← (Prod.mk.inj (Option.some.inj heffect)).2]
        | dequeuing =>
            rw [hold] at henqueues
            cases henqueues
        | _ =>
            rw [hold] at heffect
            cases heffect
  | returned found =>
      rw [hpc] at hr
      exact hr

end Rounds

section Runs

variable {s s' : Observed Thread Node} {o : Option (Thread × Node)} {t u : Thread}
  {spurious : Bool} {list : State Thread Node} {r : Removal Node} {a : Action Thread Node}

/-- Every `remove` that nobody disturbs still has its node ahead, or has found it. -/
def Observed.Searching (s : Observed Thread Node) : Prop :=
  ∀ t r, s.removal t = some r → r.undisturbed = true → r.Ahead (s.list.pc t) s.list.queue

/-- When `remove` reads `m_count`, twice of it exceeds the number of nodes before its own. -/
def BoundReaches (s : Observed Thread Node) : ObservedAction Thread Node → Prop
  | .remove _ nodeToRemove => nodeToRemove ∈ s.list.queue →
      s.list.queue.idxOf nodeToRemove < (2 * s.list.count).toNat
  | _ => True

theorem Observed.Searching.agent {p : Pc Node} (hi : s.Searching)
    (hq : s'.list.queue = s.list.queue) (hpc : s'.list.pc = Function.update s.list.pc t p)
    (hother : ∀ u, u ≠ t → s'.removal u = s.removal u)
    (hmine : ∀ r, s'.removal t = some r → r.undisturbed = true → r.Ahead p s.list.queue) :
    s'.Searching := by
  intro u r hr hundisturbed
  rw [hq, hpc]
  by_cases hu : u = t
  · subst hu
    rw [Function.update_self]
    exact hmine r hr hundisturbed
  · rw [Function.update_of_ne hu]
    exact hi u r ((hother u hu).symm.trans hr) hundisturbed

theorem Observed.Searching.setRemoval {p : Pc Node} (hi : s.Searching)
    (hremoval : s'.removal = Function.update s.removal t (some r))
    (hq : s'.list.queue = s.list.queue) (hpc : s'.list.pc = Function.update s.list.pc t p)
    (hmine : r.undisturbed = true → r.Ahead p s.list.queue) : s'.Searching := by
  refine hi.agent hq hpc (fun u hu => ?_) fun r' hr' => ?_
  · rw [hremoval, Function.update_of_ne hu]
  · rw [hremoval, Function.update_self] at hr'
    cases hr'
    exact hmine

omit [DecidableEq Thread] [DecidableEq Node] in
theorem Observed.returned_of_free (hfree : s.isFree t = true) (hr : s.removal t = some r) :
    ∃ found, r.pc = .returned found := by
  unfold Observed.isFree at hfree
  rw [hr] at hfree
  cases hpc : r.pc with
  | returned found => exact ⟨found, rfl⟩
  | _ =>
      rw [Option.map_some, hpc] at hfree
      cases hfree

omit [DecidableEq Thread] in
/-- What a call has found stays so, whatever its thread does next. -/
theorem Observed.Searching.free (hi : s.Searching) (hfree : s.isFree t = true)
    (hr : s.removal t = some r) (hundisturbed : r.undisturbed = true) (p : Pc Node) :
    r.Ahead p s.list.queue := by
  obtain ⟨found, hpc⟩ := Observed.returned_of_free hfree hr
  have hahead := hi t r hr hundisturbed
  unfold Removal.Ahead at hahead ⊢
  rw [hpc] at hahead ⊢
  exact hahead

theorem Observed.Searching.advance (hi : s.Searching) (hs : Shape s.list o)
    (ha : s.advance t spurious = some s') : s'.Searching := by
  obtain ⟨list, hlist, rfl⟩ := Option.map_eq_some_iff.mp ha
  obtain ⟨p, hm⟩ := hs.moves_advance hlist
  obtain ⟨l, hmoved⟩ := hs.queue_advance hlist
  intro u r hr hundisturbed
  dsimp only at hr ⊢
  split_ifs at hr with hu
  · subst hu
    exact (hi u r hr hundisturbed).advance hs hlist
  · rw [hm.pc, Function.update_of_ne hu]
    obtain ⟨r, hold, rfl⟩ := Option.map_eq_some_iff.mp hr
    unfold Observed.disturb at hundisturbed ⊢
    split_ifs at hundisturbed ⊢ with htaken
    exact (hi u r hold hundisturbed).moved hmoved htaken

theorem Observed.Searching.turn (hi : s.Searching) (hr : s.removal t = some r)
    (ha : s.turn t r = some s') : s'.Searching := by
  have hahead := hi t r hr
  unfold Removal.Ahead at hahead
  have hstay : s.list.pc = Function.update s.list.pc t (s.list.pc t) :=
    (Function.update_eq_self ..).symm
  cases Observed.turned ha with
  | dequeue hpc hmade hlist =>
      obtain ⟨hquiet, he⟩ := Option.ite_none_right_eq_some.mp hlist
      cases he
      refine hi.setRemoval (p := .loadHead) rfl rfl rfl fun hundisturbed => ?_
      have hahead := hahead hundisturbed
      rw [hpc] at hahead
      exact hahead.2
  | exhausted hpc hmade =>
      refine hi.setRemoval rfl rfl hstay fun hundisturbed => ?_
      have hahead := hahead hundisturbed
      rw [hpc] at hahead
      dsimp only at hahead
      omega
  | empty hpc hlist =>
      refine hi.setRemoval rfl rfl hstay fun hundisturbed => ?_
      have hahead := hahead hundisturbed
      rw [hpc, hlist] at hahead
      exact hahead.elim
  | found hpc hlist => exact hi.setRemoval rfl rfl hstay fun _ => rfl
  | @putBack node list hpc hnode hne hlist =>
      obtain ⟨hquiet, he⟩ := Option.ite_none_right_eq_some.mp hlist
      cases he
      refine hi.setRemoval (p := .clearNext node) rfl rfl rfl fun hundisturbed => ?_
      have hahead := hahead hundisturbed
      rw [hpc, hnode] at hahead
      exact ⟨rfl, hahead.2.resolve_left hne⟩
  | round hpc hlist =>
      refine hi.setRemoval rfl rfl hstay fun hundisturbed => ?_
      have hahead := hahead hundisturbed
      rw [hpc] at hahead
      obtain ⟨-, hx, hmade⟩ := hahead
      refine ⟨by rw [hlist]; rfl, hx, ?_⟩
      dsimp only
      omega

variable [Fintype Thread]

theorem searching_of_reach (hs : (observedSystem Thread Node).ReachWhile BoundReaches s) :
    s.Searching := by
  induction hs with
  | start h =>
      obtain ⟨next, rfl⟩ := h
      exact fun t r hr => by cases hr
  | @step s s' a hr hg ha ih =>
      obtain ⟨o, ho⟩ := shape_of_observed hr.reach
      cases a with
      | enqueue t node =>
          obtain ⟨hcall, ha⟩ := Option.ite_none_right_eq_some.mp ha
          obtain ⟨list, hlist, rfl⟩ := Option.map_eq_some_iff.mp ha
          obtain ⟨-, he⟩ := Option.ite_none_right_eq_some.mp hlist
          cases he
          exact ih.agent (t := t) rfl rfl (fun _ _ => rfl) fun r hr hu => ih.free hcall.1 hr hu _
      | dequeue t =>
          obtain ⟨hfree, ha⟩ := Option.ite_none_right_eq_some.mp ha
          obtain ⟨list, hlist, rfl⟩ := Option.map_eq_some_iff.mp ha
          obtain ⟨-, he⟩ := Option.ite_none_right_eq_some.mp hlist
          cases he
          exact ih.agent (t := t) rfl rfl (fun _ _ => rfl) fun r hr hu => ih.free hfree hr hu _
      | remove t nodeToRemove =>
          obtain ⟨hcall, ha⟩ := Option.ite_none_right_eq_some.mp ha
          cases ha
          refine ih.setRemoval rfl rfl (Function.update_eq_self ..).symm fun hundisturbed => ?_
          have hx : nodeToRemove ∈ s.list.queue := of_decide_eq_true hundisturbed
          exact ⟨hcall.2, hx, hg hx⟩
      | advance t spurious => exact ih.advance ho ha
      | turn t =>
          obtain ⟨r, hr, ha⟩ := Option.bind_eq_some_iff.mp ha
          exact ih.turn hr ha

end Runs

section Hands

variable {s s' : Observed Thread Node} {o : Option (Thread × Node)} {t u : Thread}
  {spurious : Bool} {r : Removal Node} {node : Node}

theorem listed_of_advance {l list : State Thread Node}
    (h : step l (.advance t spurious) = some list) :
    (list.listed = l.listed ∧ ∀ node, list.pc t ≠ .dequeued (some node)) ∨
      ∃ node, l.pc t = .countDown node ∧ list.listed = Function.update l.listed node false ∧
        list.pc t = .dequeued (some node) := by
  have hpc : ∀ q : Pc Node, (l.goto t q).pc t = q := fun _ => Function.update_self ..
  rcases Option.or_eq_some_iff.mp h with he | ⟨-, hd⟩
  · left
    unfold enqueueStep at he
    split at he <;> cases he <;> refine ⟨rfl, fun node hn => ?_⟩ <;> simp only [hpc] at hn <;>
      (try split at hn) <;> cases hn
  · cases hp : l.pc t with
    | countDown node =>
        rw [hp] at hd
        cases hd
        exact .inr ⟨node, rfl, rfl, hpc _⟩
    | _ =>
        left
        rw [hp] at hd
        unfold dequeueStep at hd
        dsimp only at hd
        (try split at hd) <;> cases hd <;> refine ⟨rfl, fun node hn => ?_⟩ <;>
          simp only [hpc] at hn <;> (try split at hn) <;> cases hn

@[simp] theorem Observed.disturb_pc (taken : Option Node) (r : Removal Node) :
    (Observed.disturb taken r).pc = r.pc := by
  unfold Observed.disturb
  split <;> rfl

/-- Only the `remove` that took a node out can put it back. -/
structure Observed.Kept (s : Observed Thread Node) : Prop where
  unlisted : ∀ t node, s.inHand t = some node → s.list.listed node = false
  unique : ∀ t u node, s.inHand t = some node → s.inHand u = some node → t = u

omit [DecidableEq Thread] [DecidableEq Node] in
theorem Observed.inHand_eq_some :
    s.inHand t = some node ↔
      (∃ r, s.removal t = some r ∧ r.pc = .dequeuing) ∧ s.list.pc t = .dequeued (some node) := by
  unfold Observed.inHand
  cases hr : s.removal t with
  | none => simp
  | some r => cases hpc : r.pc <;> cases hp : s.list.pc t <;> simp_all

omit [DecidableEq Thread] [DecidableEq Node] in
theorem Observed.Kept.agent (hi : s.Kept)
    (hother : ∀ u, u ≠ t → ∀ node, s'.inHand u = some node → s.inHand u = some node)
    (hlisted : ∀ u, u ≠ t → ∀ node, s.inHand u = some node → s'.list.listed node = false)
    (hmine : ∀ node, s'.inHand t = some node →
      s'.list.listed node = false ∧ ∀ u, u ≠ t → s.inHand u ≠ some node) : s'.Kept := by
  constructor
  · intro u node hu
    by_cases hut : u = t
    · subst hut
      exact (hmine node hu).1
    · exact hlisted u hut node (hother u hut node hu)
  · intro u v node hu hv
    by_cases hut : u = t <;> by_cases hvt : v = t
    · exact hut.trans hvt.symm
    · subst hut
      exact absurd (hother v hvt node hv) ((hmine node hu).2 v hvt)
    · subst hvt
      exact absurd (hother u hut node hu) ((hmine node hv).2 u hut)
    · exact hi.unique u v node (hother u hut node hu) (hother v hvt node hv)

omit [DecidableEq Node] in
theorem Observed.Kept.empty (hi : s.Kept) {p : Pc Node} {r : Option (Removal Node)}
    (hpc : s'.list.pc = Function.update s.list.pc t p)
    (hr : s'.removal = Function.update s.removal t r)
    (hempty : (∀ r', r = some r' → r'.pc ≠ .dequeuing) ∨ p.isQuiet = false)
    (hlisted : ∀ u, u ≠ t → ∀ node, s.inHand u = some node → s'.list.listed node = false) :
    s'.Kept := by
  refine hi.agent (t := t) (fun u hu node hn => ?_) hlisted fun node hn => ?_
  · rw [Observed.inHand_eq_some] at hn ⊢
    rwa [hpc, hr, Function.update_of_ne hu, Function.update_of_ne hu] at hn
  · rw [Observed.inHand_eq_some, hpc, hr, Function.update_self, Function.update_self] at hn
    obtain ⟨⟨r', hr', hdequeuing⟩, rfl⟩ := hn
    rcases hempty with hne | hquiet
    · exact absurd hdequeuing (hne r' hr')
    · cases hquiet

/-- A node is taken into the hand when `dequeue` counts down, before which it is listed. -/
theorem Observed.Kept.advance (hi : s.Kept) (hs : Shape s.list o)
    (ha : s.advance t spurious = some s') : s'.Kept := by
  obtain ⟨list, hlist, rfl⟩ := Option.map_eq_some_iff.mp ha
  obtain ⟨p, hm⟩ := hs.moves_advance hlist
  have hother : ∀ u, u ≠ t → ∀ node,
      Observed.inHand ⟨list, Function.update s.opening t (s.nextOpening t), fun u =>
        if u = t then s.removal u
        else (s.removal u).map (Observed.disturb (s.list.takes t spurious))⟩ u = some node →
      s.inHand u = some node := by
    intro u hu node hn
    rw [Observed.inHand_eq_some] at hn ⊢
    dsimp only at hn
    rw [hm.pc, Function.update_of_ne hu, if_neg hu] at hn
    obtain ⟨⟨r', hr', hdequeuing⟩, hp⟩ := hn
    obtain ⟨r, hr, rfl⟩ := Option.map_eq_some_iff.mp hr'
    exact ⟨⟨r, hr, by rwa [Observed.disturb_pc] at hdequeuing⟩, hp⟩
  rcases listed_of_advance hlist with ⟨hlisted, hp⟩ | ⟨node, hp, hlisted, hp'⟩
  · refine hi.agent hother (fun u _ node hn => ?_) fun node hn => ?_
    · exact (congrFun hlisted node).trans (hi.unlisted u node hn)
    · exact absurd (Observed.inHand_eq_some.mp hn).2 (hp node)
  · have hnode : s.list.listed node = true := hs.owns_listed t node (by rw [hp]; rfl)
    have hfree : ∀ u, s.inHand u ≠ some node := by
      intro u hu
      rw [hi.unlisted u node hu] at hnode
      cases hnode
    refine hi.agent hother (fun u _ m hn => ?_) fun m hn => ?_
    · dsimp only
      have hm : m ≠ node := fun he => hfree u (he ▸ hn)
      rw [hlisted, Function.update_of_ne hm]
      exact hi.unlisted u m hn
    · have hm' := (Observed.inHand_eq_some.mp hn).2
      dsimp only at hm'
      rw [hp'] at hm'
      cases hm'
      refine ⟨?_, fun u _ => hfree u⟩
      dsimp only
      rw [hlisted, Function.update_self]

theorem Observed.Kept.turn (hi : s.Kept) (hr : s.removal t = some r)
    (ha : s.turn t r = some s') : s'.Kept := by
  have hstay : s.list.pc = Function.update s.list.pc t (s.list.pc t) :=
    (Function.update_eq_self ..).symm
  cases Observed.turned ha with
  | dequeue hpc hmade hlist =>
      obtain ⟨-, he⟩ := Option.ite_none_right_eq_some.mp hlist
      cases he
      exact hi.empty (t := t) (p := .loadHead) rfl rfl (.inr rfl) fun u _ node => hi.unlisted u node
  | @putBack node list hpc hnode hne hlist =>
      obtain ⟨-, he⟩ := Option.ite_none_right_eq_some.mp hlist
      cases he
      refine hi.empty (t := t) (p := .clearNext node) rfl rfl (.inr rfl) fun u hu m hm => ?_
      have hmine : s.inHand t = some node := Observed.inHand_eq_some.mpr ⟨⟨r, hr, hpc⟩, hnode⟩
      have hm' : m ≠ node := fun he => hu (hi.unique u t node (he ▸ hm) hmine)
      exact (Function.update_of_ne hm' ..).trans (hi.unlisted u m hm)
  | exhausted | empty | found | round =>
      refine hi.empty hstay rfl (.inl ?_) fun u _ node => hi.unlisted u node
      rintro r' ⟨⟩
      nofun

variable [Fintype Thread]

theorem kept_of_reach (hs : (observedSystem Thread Node).Reach s) : s.Kept := by
  induction hs with
  | start h =>
      obtain ⟨next, rfl⟩ := h
      exact ⟨fun t node hn => (by cases hn), fun t u node hn => (by cases hn)⟩
  | @step s s' a hr _ ha ih =>
      obtain ⟨o, ho⟩ := shape_of_observed hr
      cases a with
      | enqueue t node =>
          obtain ⟨hcall, ha⟩ := Option.ite_none_right_eq_some.mp ha
          obtain ⟨list, hlist, rfl⟩ := Option.map_eq_some_iff.mp ha
          obtain ⟨-, he⟩ := Option.ite_none_right_eq_some.mp hlist
          cases he
          refine ih.empty (t := t) rfl (Function.update_eq_self t s.removal).symm (.inr rfl)
            fun u _ m hm => ?_
          have hne : m ≠ node := fun he => hcall.2 u (he ▸ hm)
          exact (Function.update_of_ne hne ..).trans (ih.unlisted u m hm)
      | dequeue t =>
          obtain ⟨-, ha⟩ := Option.ite_none_right_eq_some.mp ha
          obtain ⟨list, hlist, rfl⟩ := Option.map_eq_some_iff.mp ha
          obtain ⟨-, he⟩ := Option.ite_none_right_eq_some.mp hlist
          cases he
          exact ih.empty (t := t) rfl (Function.update_eq_self t s.removal).symm (.inr rfl)
            fun u _ m hm => ih.unlisted u m hm
      | remove t nodeToRemove =>
          obtain ⟨hcall, ha⟩ := Option.ite_none_right_eq_some.mp ha
          cases ha
          refine ih.empty (Function.update_eq_self t s.list.pc).symm rfl (.inl ?_)
            fun u _ m hm => ih.unlisted u m hm
          rintro r' ⟨⟩
          nofun
      | advance t spurious => exact ih.advance ho ha
      | turn t =>
          obtain ⟨r, hr, ha⟩ := Option.bind_eq_some_iff.mp ha
          exact ih.turn hr ha

end Hands

section Progress

variable {s : Observed Thread Node} {t : Thread} {r : Removal Node}

theorem Shape.advance_enabled {l : State Thread Node} {o : Option (Thread × Node)}
    (hs : Shape l o) (hflight : (l.pc t).isQuiet = false) :
    ∃ list, ConcurrentFifoList.step l (.advance t false) = some list := by
  have hfits := hs.fits t
  change ∃ list, (ConcurrentFifoList.enqueueStep l t (l.pc t)).or
    (ConcurrentFifoList.dequeueStep l t false (l.pc t)) = some list
  cases hp : l.pc t with
  | idle | enqueued | dequeued _ =>
      rw [hp] at hflight
      cases hflight
  | aborted =>
      rw [hp] at hfits
      exact hfits.elim
  | casHead oldHead =>
      change ∃ list, ConcurrentFifoList.dequeueStep l t false (.casHead oldHead) = some list
      rw [ConcurrentFifoList.dequeueStep]
      split <;> exact ⟨_, rfl⟩
  | casTail oldHead =>
      change ∃ list, ConcurrentFifoList.dequeueStep l t false (.casTail oldHead) = some list
      rw [ConcurrentFifoList.dequeueStep]
      split <;> exact ⟨_, rfl⟩
  | _ => exact ⟨_, rfl⟩

variable [Fintype Thread]

/-- Until it has returned, an undisturbed `remove` has rounds left and its thread can go on. -/
theorem Observed.Searching.goes_on (hi : s.Searching) (hr : s.removal t = some r)
    (hundisturbed : r.undisturbed = true) (hs : (observedSystem Thread Node).Reach s)
    (hflight : ∀ found, r.pc ≠ .returned found) :
    r.made < r.bound ∧ ∃ a s', (a = .advance t false ∨ a = .turn t) ∧
      (observedSystem Thread Node).step s a = some s' := by
  obtain ⟨o, ho⟩ := shape_of_observed hs
  have hahead := hi t r hr hundisturbed
  unfold Removal.Ahead at hahead
  constructor
  · cases hpc : r.pc with
    | test =>
        rw [hpc] at hahead
        exact lt_of_le_of_lt (Nat.le_add_left ..) hahead.2.2
    | dequeuing =>
        rw [hpc] at hahead
        dsimp only at hahead
        split at hahead
        next => exact lt_of_le_of_lt (Nat.le_add_left ..) hahead.2
        next => exact hahead.1
        next => exact hahead.elim
    | enqueuing =>
        rw [hpc] at hahead
        have := hahead.2.2
        omega
    | returned found => exact absurd hpc (hflight found)
  · cases hquiet : (s.list.pc t).isQuiet with
    | false =>
        obtain ⟨list, hlist⟩ := ho.advance_enabled hquiet
        exact ⟨_, _, .inl rfl, Option.map_eq_some_iff.mpr ⟨list, hlist, rfl⟩⟩
    | true =>
        suffices ∃ s', s.turn t r = some s' by
          obtain ⟨s', hs'⟩ := this
          exact ⟨_, s', .inr rfl, Option.bind_eq_some_iff.mpr ⟨r, hr, hs'⟩⟩
        unfold Observed.turn
        cases hpc : r.pc with
        | test =>
            have hcall : ConcurrentFifoList.step s.list (.dequeue t) = some _ := if_pos hquiet
            dsimp only
            rw [hcall]
            split <;> exact ⟨_, rfl⟩
        | dequeuing =>
            rw [hpc] at hahead
            cases hp : s.list.pc t with
            | dequeued result =>
                cases result with
                | none => exact ⟨_, rfl⟩
                | some node =>
                    have hlisted := (kept_of_reach hs).unlisted t node
                      (Observed.inHand_eq_some.mpr ⟨⟨r, hr, hpc⟩, hp⟩)
                    have hcall : ConcurrentFifoList.step s.list (.enqueue t node) = some _ :=
                      if_pos ⟨hquiet, hlisted⟩
                    dsimp only
                    rw [hcall]
                    split <;> exact ⟨_, rfl⟩
            | idle | enqueued =>
                rw [hp] at hahead
                exact hahead.elim
            | _ =>
                rw [hp] at hquiet
                cases hquiet
        | enqueuing =>
            rw [hpc] at hahead
            cases hp : s.list.pc t with
            | enqueued => exact ⟨_, rfl⟩
            | idle | dequeued _ =>
                rw [hp] at hahead
                cases hahead.1
            | _ =>
                rw [hp] at hquiet
                cases hquiet
        | returned found => exact absurd hpc (hflight found)

end Progress

open FifoList in
/-- When the observers can be trusted. `isEmpty()` is exact in precisely the states in which
no `dequeue` hides nodes behind its own; `m_count` does not wrap while no node is counted
down before enough are counted up, and stands above zero precisely when the next `dequeue`
may count down; and an undisturbed `remove` whose loop bound reaches its node answers true,
with rounds left and a step to take until then. -/
theorem observers_exact [Fintype Thread] [Addressed Node] :
    (∀ s : Observed Thread Node, (observedSystem Thread Node).Reach s →
      ((s.list.isEmpty = true → s.list.queue = [] ∨ s.Opening) ↔ ¬ s.Hidden)) ∧
    (∀ l : State Thread Node, (system Thread Node).ReachWhile CountedFirst l →
      l.count.toNat + ∑ t, (l.pc t).uncounted = l.queue.length + ∑ t, (l.pc t).taken ∧
      (0 < l.count.toNat ↔
        ∑ t, (l.pc t).uncounted < l.queue.length + ∑ t, (l.pc t).taken)) ∧
    ∀ s : Observed Thread Node, (observedSystem Thread Node).ReachWhile BoundReaches s →
      ∀ t r, s.removal t = some r → r.undisturbed = true →
        (∀ found, r.pc = .returned found → found = true) ∧
        ((∀ found, r.pc ≠ .returned found) → r.made < r.bound ∧
          ∃ a s', (a = .advance t false ∨ a = .turn t) ∧
            (observedSystem Thread Node).step s a = some s') := by
  refine ⟨fun s hs => isEmpty_iff hs, fun l hl => ⟨balanced_of_reach hl, count_pos_iff hl⟩,
    fun s hs t r hr hundisturbed => ⟨fun found hpc => ?_, fun hflight => ?_⟩⟩
  · have hahead := searching_of_reach hs t r hr hundisturbed
    unfold Removal.Ahead at hahead
    rw [hpc] at hahead
    exact hahead
  · exact (searching_of_reach hs).goes_on hr hundisturbed hs.reach hflight

instance (s : Observed Thread Node) (a : ObservedAction Thread Node) :
    Decidable (BoundReaches s a) :=
  match a with
  | .remove _ nodeToRemove => inferInstanceAs (Decidable (nodeToRemove ∈ s.list.queue →
      s.list.queue.idxOf nodeToRemove < (2 * s.list.count).toNat))
  | .enqueue _ _ | .dequeue _ | .advance _ _ | .turn _ => inferInstanceAs (Decidable True)

/-- A `remove` of the second node while another thread enqueues a third one. -/
theorem observers_exact_removed : ∃ s : Observed (Fin 2) (Fin 4),
    (observedSystem (Fin 2) (Fin 4)).Reach s ∧ s.list.queue = [3, 1] ∧
      ∃ r, s.removal 0 = some r ∧ r.nodeToRemove = 2 ∧ r.pc = .returned true := by
  let enqueued (t : Fin 2) (node : Fin 4) : List (ObservedAction (Fin 2) (Fin 4)) :=
    .enqueue t node :: List.replicate 5 (.advance t false)
  let run : List (ObservedAction (Fin 2) (Fin 4)) :=
    enqueued 0 1 ++ enqueued 0 2 ++ [.remove 0 2, .turn 0] ++ enqueued 1 3 ++
      List.replicate 7 (.advance 0 false) ++ [.turn 0] ++ List.replicate 5 (.advance 0 false) ++
      [.turn 0, .turn 0] ++ List.replicate 7 (.advance 0 false) ++ [.turn 0]
  obtain ⟨s, hs, hqueue, hr⟩ :=
    StepSystem.Reach.exists_of_exec
      (M := (observedSystem (Fin 2) (Fin 4)).restrict BoundReaches)
      (P := fun s => s.list.queue = [3, 1] ∧ (s.removal 0).any (fun r => r.nodeToRemove = 2 ∧
        r.undisturbed = true ∧ r.pc ∈ [.returned true, .returned false]) = true)
      (s := ⟨initial fun _ => none, fun _ => none, fun _ => none⟩) (.start ⟨_, rfl⟩) run
      (by decide)
  obtain ⟨r, hr, hcall⟩ := (Option.any_eq_true ..).mp hr
  obtain ⟨hnode, hundisturbed, hpc⟩ := of_decide_eq_true hcall
  refine ⟨s, hs.reachWhile.reach, hqueue, r, hr, hnode, ?_⟩
  have hfound := (observers_exact.2.2 s hs.reachWhile 0 r hr hundisturbed).1
  rcases List.mem_cons.mp hpc with hpc | hpc
  · exact hpc
  · cases hfound false (List.mem_singleton.mp hpc)

/-- Each of the three goes wrong. `isEmpty()` is true with one node queued and no `enqueue`
in flight, while a `dequeue` of another node has yet to store the next head. A node is
dequeued and counted down before the `enqueue` of it has counted it, and `m_count` wraps.
And a `remove` of a queued node, the only one ever called, reads an `m_count` that is zero
because such a node has been dequeued from before it, and answers false. -/
theorem observers_wrong :
    (∃ s : Observed (Fin 2) (Fin 4), (observedSystem (Fin 2) (Fin 4)).Reach s ∧
      s.list.isEmpty = true ∧ s.list.queue = [2] ∧ ∀ t, (s.list.pc t).uncounted = 0) ∧
    (∃ l : State (Fin 2) (Fin 4), (system (Fin 2) (Fin 4)).Reach l ∧
      l.count.toNat = 2 ^ 64 - 1) ∧
    ∃ s : Observed (Fin 3) (Fin 4), (observedSystem (Fin 3) (Fin 4)).Reach s ∧
      s.list.queue = [2] ∧ s.list.pc 0 = .enqueued ∧ s.list.returned = [1] ∧
      (s.removal 0).any (fun r =>
        r.nodeToRemove = 2 ∧ r.undisturbed = true ∧ r.pc = .returned false) = true ∧
      ∀ t, t ≠ 0 → (s.removal t).isNone = true := by
  refine ⟨?_, ?_, ?_⟩
  · let enqueued (node : Fin 4) : List (ObservedAction (Fin 2) (Fin 4)) :=
      .enqueue 0 node :: List.replicate 5 (.advance 0 false)
    exact StepSystem.Reach.exists_of_exec
      (s := ⟨initial fun _ => none, fun _ => none, fun _ => none⟩) (.start ⟨_, rfl⟩)
      (enqueued 1 ++ enqueued 2 ++ [.dequeue 1, .advance 1 false, .advance 1 false]) (by decide)
  · exact StepSystem.Reach.exists_of_exec (s := initial fun _ => none) (.start ⟨_, rfl⟩)
      (.enqueue 0 1 :: List.replicate 4 (.advance 0 false) ++
        .dequeue 1 :: List.replicate 9 (.advance 1 false)) (by decide)
  · let counted (t : Fin 3) (node : Fin 4) (accesses : ℕ) :
        List (ObservedAction (Fin 3) (Fin 4)) :=
      .enqueue t node :: List.replicate accesses (.advance t false)
    exact StepSystem.Reach.exists_of_exec
      (s := ⟨initial fun _ => none, fun _ => none, fun _ => none⟩) (.start ⟨_, rfl⟩)
      (counted 1 1 4 ++ counted 0 2 5 ++ .dequeue 2 :: List.replicate 7 (.advance 2 false) ++
        [.remove 0 2, .turn 0]) (by decide)

end LevelzAsync.ConcurrentFifoList
