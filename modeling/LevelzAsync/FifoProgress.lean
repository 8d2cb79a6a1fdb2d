import LevelzAsync.FifoOrder

/-!
# Calls of the concurrent FIFO list wait only for calls that go on

A `dequeue` spins while another `dequeue` has the head, or while an `enqueue` has not
yet linked its node. The chain tells who that is: whoever holds the head waits at most
for a link, and whoever writes a link or publishes a head waits for nobody. What a call
still has to do is bounded, apart from what it does again because `m_head` or `m_tail`
has changed, and each call changes them a few times only.
-/

namespace LevelzAsync.ConcurrentFifoList

variable {Thread Node : Type*}

namespace Pc

def writes : Pc Node → ℕ
  | loadHead | loadTail | spinHead | spinTail | casHead _ => 4
  | checkTaken _ | loadNext _ | storeHead _ _ => 3
  | checkLast _ | casTail _ | clearNext _ | swapTail _ => 2
  | spinNext _ | checkHandOver _ | reloadNext _ | restoreHead _ _ | checkHead _ | swapHead _ => 1
  | _ => 0

/-- Steps left until the call returns, writes to `m_head` or `m_tail`, or spins, for the
values that they have. -/
def distance [DecidableEq Node] (head tail : Option Node) : Pc Node → ℕ
  | casHead oldHead => if head = some oldHead then 1 else 5
  | loadTail => if tail = none then 1 else 4
  | spinHead => 2
  | spinTail => if tail = none then 1 else 3
  | loadHead => 6
  | checkTaken _ => 12
  | loadNext _ => 11
  | storeHead _ _ => 10
  | checkLast _ => 9
  | casTail _ => 8
  | spinNext _ | clearNext _ => 7
  | checkHandOver _ | swapTail _ => 6
  | reloadNext _ | checkOldTail _ _ | checkHead _ => 5
  | restoreHead _ _ | linkOldTail _ _ | swapHead _ => 4
  | clearOldHead _ | countUp => 3
  | countDown _ => 2
  | idle | enqueued | dequeued _ | aborted => 0

theorem distance_le [DecidableEq Node] (head tail : Option Node) (p : Pc Node) :
    p.distance head tail ≤ 12 := by
  cases p with
  | casHead oldHead =>
      simp only [distance]
      split_ifs <;> omega
  | loadTail | spinTail =>
      simp only [distance]
      split_ifs <;> omega
  | _ => simp only [distance]; omega

end Pc

/-- A step of a spin that finds what it found before. -/
def State.Futile (s : State Thread Node) : Pc Node → Prop
  | .spinHead | .spinTail => s.head = none ∧ s.tail ≠ none
  | .spinNext oldHead => s.next oldHead = none
  | _ => False

instance [DecidableEq Node] (s : State Thread Node) (p : Pc Node) : Decidable (s.Futile p) :=
  match p with
  | .spinHead | .spinTail => inferInstanceAs (Decidable (s.head = none ∧ s.tail ≠ none))
  | .spinNext oldHead => inferInstanceAs (Decidable (s.next oldHead = none))
  | .idle | .clearNext _ | .swapTail _ | .checkOldTail _ _ | .linkOldTail _ _ | .checkHead _
  | .swapHead _ | .countUp | .enqueued | .loadHead | .loadTail | .casHead _ | .checkTaken _
  | .loadNext _ | .storeHead _ _ | .checkLast _ | .casTail _ | .checkHandOver _ | .reloadNext _
  | .restoreHead _ _ | .clearOldHead _ | .countDown _ | .dequeued _ | .aborted =>
      inferInstanceAs (Decidable False)

/-- A call in flight goes on, its exchanges fail for a reason only, and it does not spin
in vain. -/
def Useful (s : State Thread Node) : Action Thread Node → Prop
  | .advance t spurious => spurious = false ∧ ¬ s.Futile (s.pc t)
  | _ => False

instance [DecidableEq Node] (s : State Thread Node) (a : Action Thread Node) :
    Decidable (Useful s a) :=
  match a with
  | .advance t spurious => inferInstanceAs (Decidable (spurious = false ∧ ¬ s.Futile (s.pc t)))
  | .enqueue _ _ | .dequeue _ => inferInstanceAs (Decidable False)

variable [DecidableEq Thread] [DecidableEq Node]
  {s s' : State Thread Node} {o : Option (Thread × Node)} {t : Thread}

/-- What a step at the program point `q` brings the call nearer to. -/
structure Nearer (s s' : State Thread Node) (t : Thread) (q p : Pc Node) : Prop where
  pc : s'.pc = Function.update s.pc t p
  nearer : p.writes < q.writes ∨ s'.head = s.head ∧ s'.tail = s.tail ∧ p.writes = q.writes ∧
    p.distance s.head s.tail < q.distance s.head s.tail

theorem Nearer.goto {q p : Pc Node} (hwrites : p.writes = q.writes)
    (hdistance : p.distance s.head s.tail < q.distance s.head s.tail) :
    Nearer s (s.goto t p) t q p :=
  ⟨rfl, .inr ⟨rfl, rfl, hwrites, hdistance⟩⟩

theorem enqueueStep_nearer {q : Pc Node} (h : enqueueStep s t q = some s') :
    ∃ p, Nearer s s' t q p := by
  cases q with
  | clearNext node | linkOldTail node oldTail =>
      cases h
      exact ⟨_, rfl, .inr ⟨rfl, rfl, rfl, Nat.lt_succ_self _⟩⟩
  | countUp =>
      cases h
      exact ⟨_, rfl, .inr ⟨rfl, rfl, rfl, Nat.succ_pos 2⟩⟩
  | swapTail node =>
      cases h
      refine ⟨_, rfl, .inl ?_⟩
      cases s.tail with
      | none => exact Nat.one_lt_two
      | some oldTail => exact Nat.two_pos
  | checkOldTail node oldTail =>
      cases h
      refine ⟨_, .goto ?_ ?_⟩
      · split_ifs <;> rfl
      · split_ifs
        · exact Nat.lt_succ_self 4
        · exact Nat.succ_pos 4
  | checkHead node =>
      cases h
      by_cases hhead : s.head = none
      · rw [if_pos hhead]
        exact ⟨_, .goto rfl (Nat.lt_succ_self 4)⟩
      · rw [if_neg hhead]
        exact ⟨_, rfl, .inl Nat.one_pos⟩
  | swapHead node =>
      cases h
      refine ⟨_, rfl, .inl ?_⟩
      split_ifs <;> exact Nat.one_pos
  | _ => cases h

/-- A stale or missing head is read again, which brings the call nearer. -/
theorem reload_nearer {q : Pc Node} (hwrites : q.writes = 4)
    (hdistance : 5 ≤ q.distance s.head s.tail) :
    ∃ p, Nearer s (s.goto t (match s.head with
      | some oldHead => .casHead oldHead
      | none => .loadTail)) t q p := by
  refine ⟨_, .goto ?_ (lt_of_lt_of_le ?_ hdistance)⟩
  · rw [hwrites]
    cases s.head with
    | none => rfl
    | some oldHead => rfl
  · cases hhead : s.head with
    | none =>
        simp only [Pc.distance]
        split_ifs <;> omega
    | some oldHead => simp [Pc.distance]

theorem dequeueStep_nearer {q : Pc Node} (huseful : ¬ s.Futile q)
    (h : dequeueStep s t false q = some s') : ∃ p, Nearer s s' t q p := by
  cases q with
  | loadHead =>
      cases h
      exact reload_nearer rfl (Nat.le_succ 5)
  | casHead oldHead =>
      by_cases hhead : s.head = some oldHead
      · rw [dequeueStep, if_pos ⟨hhead, rfl⟩] at h
        cases h
        exact ⟨_, rfl, .inl (Nat.lt_succ_self 3)⟩
      · rw [dequeueStep, if_neg fun hc => hhead hc.1] at h
        cases h
        exact reload_nearer rfl (by rw [Pc.distance, if_neg hhead])
  | loadTail =>
      cases h
      by_cases htail : s.tail = none
      · rw [if_pos htail]
        exact ⟨_, rfl, .inl (Nat.succ_pos 3)⟩
      · rw [if_neg htail]
        exact ⟨_, .goto rfl (by simp [Pc.distance, htail])⟩
  | spinHead =>
      cases h
      cases hhead : s.head with
      | none =>
          have htail : s.tail = none := by
            by_contra htail
            exact huseful ⟨hhead, htail⟩
          exact ⟨_, .goto rfl (by simp [Pc.distance, htail])⟩
      | some oldHead => exact ⟨_, .goto rfl (by simp [Pc.distance, hhead])⟩
  | spinTail =>
      cases h
      by_cases htail : s.tail = none
      · rw [if_pos htail]
        exact ⟨_, rfl, .inl (Nat.succ_pos 3)⟩
      · rw [if_neg htail]
        exact ⟨_, .goto rfl (by simp [Pc.distance, htail])⟩
  | checkTaken oldHead | checkLast oldHead =>
      cases h
      by_cases hhead : s.head = none
      · rw [if_pos hhead]
        exact ⟨_, .goto rfl (Nat.lt_succ_self _)⟩
      · rw [if_neg hhead]
        exact ⟨_, rfl, .inl (Nat.succ_pos _)⟩
  | checkHandOver oldHead =>
      cases h
      by_cases hhead : s.head = none
      · rw [if_pos hhead]
        exact ⟨_, .goto rfl (Nat.lt_succ_self _)⟩
      · rw [if_neg hhead]
        exact ⟨_, rfl, .inl Nat.one_pos⟩
  | loadNext oldHead | reloadNext oldHead =>
      cases h
      exact ⟨_, .goto rfl (Nat.lt_succ_self _)⟩
  | storeHead oldHead newHead =>
      cases h
      refine ⟨_, rfl, .inl ?_⟩
      cases newHead with
      | none => exact Nat.lt_succ_self 2
      | some y => exact Nat.succ_pos 2
  | casTail oldHead =>
      by_cases htail : s.tail = some oldHead
      · rw [dequeueStep, if_pos htail] at h
        cases h
        exact ⟨_, rfl, .inl Nat.two_pos⟩
      · rw [dequeueStep, if_neg htail] at h
        cases h
        exact ⟨_, rfl, .inl Nat.one_lt_two⟩
  | spinNext oldHead =>
      cases h
      rw [if_neg (show ¬ s.next oldHead = none from huseful)]
      exact ⟨_, .goto rfl (Nat.lt_succ_self 6)⟩
  | restoreHead oldHead newHead =>
      cases h
      exact ⟨_, rfl, .inl Nat.one_pos⟩
  | clearOldHead oldHead =>
      cases h
      exact ⟨_, rfl, .inr ⟨rfl, rfl, rfl, Nat.lt_succ_self 2⟩⟩
  | countDown oldHead =>
      cases h
      exact ⟨_, rfl, .inr ⟨rfl, rfl, rfl, Nat.two_pos⟩⟩
  | _ => cases h

theorem step_nearer {a : Action Thread Node} (huseful : Useful s a) (h : step s a = some s') :
    ∃ t p, Nearer s s' t (s.pc t) p := by
  cases a with
  | enqueue t node => cases huseful
  | dequeue t => cases huseful
  | advance t spurious =>
      obtain ⟨rfl, hfutile⟩ := huseful
      rcases Option.or_eq_some_iff.mp h with he | ⟨-, hd⟩
      · exact ⟨t, enqueueStep_nearer he⟩
      · exact ⟨t, dequeueStep_nearer hfutile hd⟩

section Rank

variable [Fintype Thread]

/-- A write to `m_head` or `m_tail` may send every other call back to the start of its loop. -/
def rank (s : State Thread Node) : ℕ :=
  (12 * Fintype.card Thread + 1) * ∑ t, (s.pc t).writes + ∑ t, (s.pc t).distance s.head s.tail

omit [DecidableEq Thread] in
theorem distances_le (s : State Thread Node) :
    ∑ t, (s.pc t).distance s.head s.tail ≤ 12 * Fintype.card Thread := by
  have hle := Finset.sum_le_card_nsmul Finset.univ (fun t => (s.pc t).distance s.head s.tail) 12
    fun t _ => Pc.distance_le ..
  rwa [Finset.card_univ, Nat.nsmul_eq_mul, Nat.mul_comm] at hle

theorem Nearer.rank_lt {p : Pc Node} (h : Nearer s s' t (s.pc t) p) : rank s' < rank s := by
  have hwrites := sum_update_tally s.pc Pc.writes t p
  rw [← h.pc] at hwrites
  rcases h.nearer with hless | ⟨hhead, htail, hsame, hless⟩
  · have hle := distances_le s'
    have hsum : ∑ u, (s'.pc u).writes + 1 ≤ ∑ u, (s.pc u).writes := by omega
    calc rank s' < (12 * Fintype.card Thread + 1) * (∑ u, (s'.pc u).writes + 1) := by
          unfold rank
          rw [Nat.mul_succ]
          omega
      _ ≤ (12 * Fintype.card Thread + 1) * ∑ u, (s.pc u).writes := Nat.mul_le_mul_left _ hsum
      _ ≤ rank s := Nat.le_add_right ..
  · have hdistance := sum_update_tally s.pc (Pc.distance s.head s.tail) t p
    rw [← h.pc] at hdistance
    have hsum : ∑ u, (s'.pc u).writes = ∑ u, (s.pc u).writes := by omega
    unfold rank
    rw [hhead, htail, hsum]
    omega

end Rank

/-- A `dequeue` that waits for a link has found another node at the tail. -/
def Overtaken (s : State Thread Node) : Prop :=
  ∀ t h, s.pc t = .spinNext h → s.tail ≠ some h

/-- What a step at the program point `q` does to the tail and to the wait for a link. -/
structure Overtakes (s s' : State Thread Node) (t : Thread) (q p : Pc Node) : Prop where
  pc : s'.pc = Function.update s.pc t p
  tail : s'.tail = s.tail ∨ s'.tail = none ∨ ∃ node, q = .swapTail node ∧ s'.tail = some node
  waits : ∀ h, p = .spinNext h → s'.tail = s.tail ∧ (q = .spinNext h ∨ s.tail ≠ some h)

omit [DecidableEq Node] in
theorem Overtakes.quiet {q p : Pc Node} (hpc : s'.pc = Function.update s.pc t p)
    (htail : s'.tail = s.tail) (hp : ∀ h, p ≠ .spinNext h) : Overtakes s s' t q p :=
  ⟨hpc, .inl htail, fun h he => absurd he (hp h)⟩

theorem enqueueStep_overtakes {q : Pc Node} (h : enqueueStep s t q = some s') :
    ∃ p, Overtakes s s' t q p := by
  cases q with
  | swapTail node =>
      cases h
      refine ⟨_, rfl, .inr (.inr ⟨node, rfl, rfl⟩), fun h he => ?_⟩
      cases htail : s.tail <;> rw [htail] at he <;> cases he
  | clearNext node | linkOldTail node oldTail | countUp =>
      cases h
      exact ⟨_, .quiet rfl rfl fun h he => by cases he⟩
  | checkOldTail node oldTail | checkHead node | swapHead node =>
      cases h
      refine ⟨_, .quiet rfl rfl fun h he => ?_⟩
      split_ifs at he
  | _ => cases h

theorem dequeueStep_overtakes {spurious : Bool} {q : Pc Node}
    (h : dequeueStep s t spurious q = some s') : ∃ p, Overtakes s s' t q p := by
  cases q with
  | loadHead | spinHead =>
      cases h
      refine ⟨_, .quiet rfl rfl fun h he => ?_⟩
      cases hhead : s.head <;> rw [hhead] at he <;> cases he
  | casHead oldHead =>
      dsimp only [dequeueStep] at h
      split_ifs at h
      · cases h
        exact ⟨_, .quiet rfl rfl fun h he => by cases he⟩
      · cases h
        refine ⟨_, .quiet rfl rfl fun h he => ?_⟩
        cases hhead : s.head <;> rw [hhead] at he <;> cases he
  | loadTail | spinTail | checkTaken oldHead | checkLast oldHead | checkHandOver oldHead =>
      cases h
      refine ⟨_, .quiet rfl rfl fun h he => ?_⟩
      split_ifs at he
  | casTail oldHead =>
      dsimp only [dequeueStep] at h
      split_ifs at h with htail
      · cases h
        exact ⟨_, rfl, .inr (.inl rfl), fun h he => by cases he⟩
      · cases h
        refine ⟨_, rfl, .inl rfl, fun h he => ?_⟩
        cases he
        exact ⟨rfl, .inr htail⟩
  | spinNext oldHead =>
      cases h
      refine ⟨_, rfl, .inl rfl, fun h he => ⟨rfl, .inl ?_⟩⟩
      split_ifs at he
      exact he
  | storeHead oldHead newHead =>
      cases h
      refine ⟨_, .quiet rfl rfl fun h he => ?_⟩
      cases newHead <;> cases he
  | loadNext oldHead | reloadNext oldHead | restoreHead oldHead newHead | clearOldHead oldHead
  | countDown oldHead =>
      cases h
      exact ⟨_, .quiet rfl rfl fun h he => by cases he⟩
  | _ => cases h

theorem step_overtakes {a : Action Thread Node} (h : step s a = some s') :
    ∃ t p, Overtakes s s' t (s.pc t) p := by
  cases a with
  | enqueue t node =>
      obtain ⟨-, he⟩ := Option.ite_none_right_eq_some.mp h
      cases he
      exact ⟨t, _, .quiet rfl rfl fun h he => by cases he⟩
  | dequeue t =>
      obtain ⟨-, he⟩ := Option.ite_none_right_eq_some.mp h
      cases he
      exact ⟨t, _, .quiet rfl rfl fun h he => by cases he⟩
  | advance t spurious =>
      rcases Option.or_eq_some_iff.mp h with he | ⟨-, hd⟩
      · exact ⟨t, enqueueStep_overtakes he⟩
      · exact ⟨t, dequeueStep_overtakes hd⟩

omit [DecidableEq Node] in
/-- The node at the tail does not come back while it is held. -/
theorem Overtaken.next {p : Pc Node} (hi : Overtaken s) (hs : Shape s o)
    (h : Overtakes s s' t (s.pc t) p) : Overtaken s' := by
  intro u x hu
  rw [h.pc] at hu
  by_cases hut : u = t
  · subst hut
    rw [Function.update_self] at hu
    obtain ⟨htail, hbefore | hne⟩ := h.waits x hu
    · rw [htail]
      exact hi u x hbefore
    · rwa [htail]
  · rw [Function.update_of_ne hut] at hu
    rcases h.tail with hsame | hnone | ⟨node, hpc, hnode⟩
    · rw [hsame]
      exact hi u x hu
    · rw [hnone]
      nofun
    · have hheld := (hs.held u x).mp (by rw [hu]; rfl)
      have hout := hs.owns t node (by rw [hpc]; rfl)
      rw [hnode]
      intro he
      apply hout
      rw [hheld, State.chain_some, Option.some.inj he]
      exact List.mem_cons_self

theorem overtaken_of_reach (hs : (system Thread Node).Reach s) : Overtaken s := by
  induction hs with
  | start h =>
      obtain ⟨next, rfl⟩ := h
      intro t h hpc
      cases hpc
  | step hr _ ha ih =>
      obtain ⟨o, ho⟩ := shape_of_reach hr
      obtain ⟨t, p, hp⟩ := step_overtakes ha
      exact ih.next ho hp

def Pc.goesOn : Pc Node → Bool
  | .spinHead | .spinTail | .spinNext _ | .idle | .enqueued | .dequeued _ | .aborted => false
  | _ => true

omit [DecidableEq Thread] [DecidableEq Node] in
theorem Pc.goesOn_of_link {p : Pc Node} {xy : Node × Node} (h : p.link = some xy) :
    p.goesOn = true := by
  cases p with
  | checkOldTail node oldTail | linkOldTail node oldTail => rfl
  | _ => cases h

omit [DecidableEq Thread] [DecidableEq Node] in
theorem Pc.goesOn_of_opens {p : Pc Node} {x : Node} (h : p.opens = some x) :
    p.goesOn = true := by
  cases p with
  | checkHead node | swapHead node => rfl
  | _ => cases h

omit [DecidableEq Thread] [DecidableEq Node] in
theorem Pc.goesOn_of_held {p : Pc Node} {x : Node} (h : p.held = some x) :
    p.goesOn = true ∨ p = .spinNext x := by
  cases p with
  | spinNext oldHead => exact .inr (congrArg _ (Option.some.inj h))
  | checkTaken oldHead | loadNext oldHead | storeHead oldHead newHead | checkLast oldHead
  | casTail oldHead | checkHandOver oldHead | reloadNext oldHead
  | restoreHead oldHead newHead => exact .inl rfl
  | _ => cases h

/-- Some call can do a useful step. -/
def CanGoOn (s : State Thread Node) : Prop :=
  ∃ t s', Useful s (.advance t false) ∧ step s (.advance t false) = some s'

theorem canGoOn_of_step {p : Pc Node} (hp : s.pc t = p) (hfutile : ¬ s.Futile p)
    (hstep : ∃ s', (enqueueStep s t p).or (dequeueStep s t false p) = some s') : CanGoOn s := by
  obtain ⟨s', hs'⟩ := hstep
  subst hp
  exact ⟨t, s', ⟨rfl, hfutile⟩, hs'⟩

theorem canGoOn_of_goesOn (h : (s.pc t).goesOn = true) : CanGoOn s := by
  cases hp : s.pc t with
  | spinHead | spinTail | spinNext _ | idle | enqueued | dequeued _ | aborted =>
      rw [hp] at h
      cases h
  | casHead oldHead =>
      refine canGoOn_of_step hp id ?_
      dsimp only [enqueueStep, dequeueStep, Option.or]
      split_ifs <;> exact ⟨_, rfl⟩
  | casTail oldHead =>
      refine canGoOn_of_step hp id ?_
      dsimp only [enqueueStep, dequeueStep, Option.or]
      split_ifs <;> exact ⟨_, rfl⟩
  | _ => exact canGoOn_of_step hp id ⟨_, rfl⟩

/-- Who waits for a link waits for the call that writes it. -/
theorem Shape.canGoOn_of_next {h : Node} (hs : Shape s o) (hover : Overtaken s)
    (hpc : s.pc t = .spinNext h) (hnext : s.next h = none) : CanGoOn s := by
  obtain rfl : o = some (t, h) := (hs.held t h).mp (by rw [hpc]; rfl)
  have hlinked := hs.linked
  rw [State.chain_some] at hlinked
  cases hq : s.queue with
  | nil =>
      have htail := hs.tail
      rw [State.chain_some, hq] at htail
      exact absurd htail (hover t h hpc)
  | cons y rest =>
      rw [hq, List.isChain_cons_cons] at hlinked
      rcases hlinked.1 with hy | ⟨u, hu⟩
      · rw [hnext] at hy
        cases hy
      · exact canGoOn_of_goesOn (Pc.goesOn_of_link hu)

/-- Who waits for the head waits for the call that has it or is about to publish it. -/
theorem Shape.canGoOn_of_head (hs : Shape s o) (hover : Overtaken s) (hhead : s.head = none)
    (htail : s.tail ≠ none) : CanGoOn s := by
  cases ho : o with
  | none =>
      rcases hs.head_free ho with hfirst | ⟨-, t, n, hn⟩
      · have hqueue : s.queue = [] := List.head?_eq_none_iff.mp (hfirst.symm.trans hhead)
        have hlast := hs.tail
        rw [ho, State.chain_none, hqueue] at hlast
        exact absurd hlast htail
      · exact canGoOn_of_goesOn (Pc.goesOn_of_opens hn)
  | some holder =>
      obtain ⟨t, h⟩ := holder
      rcases Pc.goesOn_of_held ((hs.held t h).mpr ho) with hgoes | hspins
      · exact canGoOn_of_goesOn hgoes
      · by_cases hnext : s.next h = none
        · exact hs.canGoOn_of_next hover hspins hnext
        · exact canGoOn_of_step hspins hnext ⟨_, rfl⟩

theorem Shape.canGoOn (hs : Shape s o) (hover : Overtaken s) (hbusy : (s.pc t).isQuiet = false) :
    CanGoOn s := by
  cases hp : s.pc t with
  | idle | enqueued | dequeued result =>
      rw [hp] at hbusy
      cases hbusy
  | aborted =>
      have hfits := hs.fits t
      rw [hp] at hfits
      exact hfits.elim
  | spinHead | spinTail =>
      by_cases hwait : s.head = none ∧ s.tail ≠ none
      · exact hs.canGoOn_of_head hover hwait.1 hwait.2
      · exact canGoOn_of_step hp hwait ⟨_, rfl⟩
  | spinNext h =>
      by_cases hnext : s.next h = none
      · exact hs.canGoOn_of_next hover hp hnext
      · exact canGoOn_of_step hp hnext ⟨_, rfl⟩
  | _ => exact canGoOn_of_goesOn (t := t) (by rw [hp]; rfl)

/-- Of the calls in flight one can always go on, and when no further call begins they
have all returned after finitely many useful steps, in whatever order. -/
theorem calls_in_flight_return [Fintype Thread] (hs : (system Thread Node).Reach s) :
    ((system Thread Node).restrict Useful).Inevitable (fun _ => True)
      (fun s => ∀ t, (s.pc t).isQuiet = true) s := by
  refine StepSystem.inevitable_at_rest (R := fun s => ∀ t, (s.pc t).isQuiet = true) rank
    (fun s hr hbusy => ?_) (fun s a s' hr _ hstep => ?_) (fun _ _ hquiet => hquiet) hs
  · obtain ⟨t, ht⟩ := not_forall.mp hbusy
    obtain ⟨o, ho⟩ := shape_of_reach hr
    obtain ⟨u, s', huseful, hstep⟩ :=
      ho.canGoOn (overtaken_of_reach hr) (Bool.eq_false_iff.mpr ht)
    exact ⟨_, s', trivial, (if_pos huseful).trans hstep⟩
  · obtain ⟨huseful, hstep⟩ := Option.ite_none_right_eq_some.mp hstep
    obtain ⟨t, p, hp⟩ := step_nearer huseful hstep
    exact ⟨StepSystem.Reach.step hr hstep, hp.rank_lt⟩

/-- A `dequeue` spins for the head that an `enqueue` is about to publish. -/
theorem calls_in_flight_return_spinning : ∃ s : State (Fin 2) (Fin 1),
    s.Futile (s.pc 0) ∧ s.pc 1 = .checkHead 0 ∧
      ((system (Fin 2) (Fin 1)).restrict Useful).Inevitable (fun _ => True)
        (fun s => ∀ t, (s.pc t).isQuiet = true) s := by
  obtain ⟨s, hr, hfutile, hpc⟩ := StepSystem.Reach.exists_of_exec (M := system (Fin 2) (Fin 1))
    (P := fun s => s.Futile (s.pc 0) ∧ s.pc 1 = .checkHead 0) (.start ⟨fun _ => none, rfl⟩)
    ([.dequeue 0, .enqueue 1 0] ++ List.replicate 2 (.advance 1 false) ++
      List.replicate 2 (.advance 0 false)) (by decide)
  exact ⟨s, hfutile, hpc, calls_in_flight_return hr⟩

end LevelzAsync.ConcurrentFifoList
