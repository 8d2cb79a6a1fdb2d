import LevelzAsync.AsyncBarrierSafety

/-!
# Everybody comes through the barrier

As many participants as the capacity await the barrier, each the same number of times, and
nothing is cancelled. A call waits for nobody: the exchange of `m_count` is repeated only
because `m_count` has changed, each call changes it once, and a release takes a bounded
number of nodes. At rest not every participant can be in the wait list, since each would
have incremented `m_count` and the last one would have released the others.
-/

namespace LevelzAsync.AsyncBarrier

variable {Thread P : Type*}

namespace Call

/-- How often the call may still change `m_count`. -/
def changes : Call P → ℕ
  | ready _ | readyIsCanceled _ | readyRelease _ | suspend _ | suspendIsCanceled _ _
  | loadCount _ _ | isCanceled _ _ _ | enqueue _ _ _ | isCanceledAgain _ _ _ | arrive _ _ _
  | releaseLoad _ _ | releaseStore _ => 1
  | _ => 0

/-- Steps left to the call for the value that `m_count` has, if the call is the one to
release the others. -/
def distance (capacity count : ℕ) : Call P → ℕ
  | ready _ => 4 * capacity + 19
  | readyIsCanceled _ => 4 * capacity + 18
  | readyRelease _ => 4 * capacity + 17
  | suspend _ => 4 * capacity + 16
  | suspendIsCanceled _ _ => 4 * capacity + 15
  | loadCount _ _ => 4 * capacity + 14
  | isCanceled _ _ _ => 4 * capacity + 13
  | enqueue _ _ _ => 4 * capacity + 12
  | isCanceledAgain _ _ _ => 4 * capacity + 8
  | arrive _ _ old => if old = count then 4 * capacity + 6 else 4 * capacity + 7
  | releaseLoad _ _ => 4 * capacity + 5
  | releaseStore _ => 4 * capacity + 4
  | releaseDequeue _ left => 4 * left + 3
  | releaseSchedule _ _ left => 4 * left + 5
  | assertCount _ => 1
  | _ => 0

theorem distance_le (c : Call P) (capacity m n : ℕ) :
    c.distance capacity m ≤ c.distance capacity n + 1 := by
  cases c with
  | arrive =>
      simp only [distance]
      split_ifs <;> omega
  | _ => exact Nat.le_succ _

end Call

def Place.weight : Place → ℕ
  | running => 0
  | scheduled => 1
  | arriving | suspended => 2

/-- How often the participant will begin to await the barrier if it has `k` rounds to go
through. -/
def State.credit (k : ℕ) (s : State Thread P) (p : P) : ℕ :=
  k - s.passed p - if s.co p = .running then 0 else 1

/-- Nothing is cancelled, and a participant awaits the barrier only while it has gone
through less than `k` rounds. -/
def Rounds (k : ℕ) (s : State Thread P) : Action Thread P → Prop
  | .await p _ => s.passed p < k
  | a => Uncanceled s a

instance (k : ℕ) (s : State Thread P) (a : Action Thread P) : Decidable (Rounds k s a) :=
  match a with
  | .await p _ => inferInstanceAs (Decidable (s.passed p < k))
  | .call t advice spurious => inferInstanceAs (Decidable (Uncanceled s (.call t advice spurious)))
  | .resume p => inferInstanceAs (Decidable (Uncanceled s (.resume p)))
  | .cancel t => inferInstanceAs (Decidable (Uncanceled s (.cancel t)))

theorem Rounds.uncanceled {k : ℕ} {s : State Thread P} {a : Action Thread P}
    (h : Rounds k s a) : Uncanceled s a := by
  cases a with
  | await => trivial
  | _ => exact h

def Action.failsSpuriously : Action Thread P → Bool
  | .call _ _ spurious => spurious
  | _ => false

variable [DecidableEq Thread] [DecidableEq P] {s s' : State Thread P} {t : Thread} {p : P}
  {c : Call P} {k : ℕ}

section Effects

/-- What a step of a call does to a barrier on which nothing is cancelled. -/
inductive Effect (s : State Thread P) (t : Thread) (spurious : Bool) : State Thread P → Prop
  | goOn (c : Call P) (waitList : List P) (awaits : c.awaits = (s.call t).awaits)
      (uncounted : c.role.uncounted = (s.call t).role.uncounted)
      (changes : c.changes ≤ (s.call t).changes)
      (nearer : spurious = false →
        c.distance s.capacity s.count < (s.call t).distance s.capacity s.count) :
      Effect s t spurious { s.go t c with waitList := waitList }
  | enqueue (p : P) (mustSuspend : Bool) (count : ℕ)
      (call : s.call t = .enqueue p mustSuspend count) :
      Effect s t spurious { (s.go t (.isCanceledAgain p mustSuspend count)).move p .suspended with
        waitList := s.waitList ++ [p]
        arrived := Function.update s.arrived p (s.arrived p + 1) }
  | readyRelease (p : P) (call : s.call t = .readyRelease p) :
      Effect s t spurious { s.go t (.releaseStore (.ready p)) with
        arrived := Function.update s.arrived p (s.arrived p + 1) }
  | increment (p : P) (mustSuspend : Bool) (call : s.call t = .arrive p mustSuspend s.count) :
      Effect s t spurious { s.go t (.assertCount p) with
        count := s.count + 1
        counted := Function.update s.counted p true }
  | store (releaser : Releaser P) (call : s.call t = .releaseStore releaser) :
      Effect s t spurious { s.go t (.releaseDequeue releaser (s.dequeCount releaser)) with
        count := 0
        counted := fun _ => false
        rounds := s.rounds + 1 }
  | schedule (releaser : Releaser P) (node : P) (left : ℕ)
      (call : s.call t = .releaseSchedule releaser node left) :
      Effect s t spurious ((s.go t (.releaseDequeue releaser left)).schedule node)
  | returnRelease (releaser : Releaser P) (call : s.call t = .releaseDequeue releaser 0) :
      Effect s t spurious (s.returnRelease t releaser)

theorem Effect.go {spurious : Bool} {q : Call P} (hq : s.call t = q) (hawaits : c.awaits = q.awaits)
    (huncounted : c.role.uncounted = q.role.uncounted) (hchanges : c.changes ≤ q.changes)
    (hnearer : spurious = false →
      c.distance s.capacity s.count < q.distance s.capacity s.count) :
    Effect s t spurious (s.go t c) := by
  subst hq
  exact .goOn c s.waitList hawaits huncounted hchanges hnearer

omit [DecidableEq Thread] in
theorem Releaser.take_quiet (releaser : Releaser P) (node : P) (left : ℕ) :
    (releaser.take node left).awaits = none ∧
      (releaser.take node left).role.uncounted = some releaser.participant ∧
      (releaser.take node left).changes = 0 ∧
      (releaser.take node left).distance s.capacity s.count ≤ 4 * left + 5 := by
  cases releaser with
  | ready p => exact ⟨rfl, rfl, rfl, le_rfl⟩
  | suspend p mustSuspend skipped =>
      by_cases hq : node = p
      · rw [show Releaser.take node left (.suspend p mustSuspend skipped) = _ from if_pos hq]
        exact ⟨rfl, rfl, rfl, Nat.add_le_add_left (by decide) _⟩
      · rw [show Releaser.take node left (.suspend p mustSuspend skipped) = _ from if_neg hq]
        exact ⟨rfl, rfl, rfl, le_rfl⟩

variable [Fintype P]

omit [DecidableEq Thread] [DecidableEq P] in
/-- A release finds the nodes that it still has to take. -/
theorem RoundInv.waitList_ne_nil {releaser : Releaser P} {left : ℕ} (h : RoundInv s)
    (hp : s.call t = .releaseDequeue releaser (left + 1)) : s.waitList ≠ [] := by
  have hrole : (s.call t).role = .releasing releaser (left + 1) none := by rw [hp]; rfl
  obtain ⟨_, k, hk⟩ := h.inv.round_of_releases (t := t) (by rw [hrole]; rfl)
  have hle := hk.le
  have hleft := ((hk.fits t).releasing releaser (left + 1) none hrole).1
  intro hlist
  rw [hlist, List.length_nil] at hle
  omega

theorem RoundInv.effect {advice : SuspensionAdvice} {spurious : Bool} (h : RoundInv s)
    (hadvice : advice ≠ .shouldNotSuspend)
    (hs : AsyncBarrier.callStep s t advice spurious (s.call t) = some s') :
    Effect s t spurious s' := by
  have hcanceled := h.canceled
  have hfits := h.inv.calls.fits t
  have hcancels := h.calls t
  cases hp : s.call t with rw [hp] at hs hfits hcancels
  | idle | failed => cases hs
  | cancelIsCanceled | cancelMark => cases hcancels
  | drainDequeue | drainSchedule =>
      have := hfits.drains rfl
      rw [hcanceled] at this
      cases this
  | ready p =>
      cases hs
      cases advice with
      | shouldNotSuspend => exact absurd rfl hadvice
      | shouldSuspend =>
          exact .go hp rfl rfl le_rfl fun _ => Nat.add_lt_add_left (by decide) _
      | maySuspend =>
          exact .go hp rfl rfl le_rfl fun _ => Nat.add_lt_add_left (by decide) _
  | readyIsCanceled | suspendIsCanceled | isCanceled =>
      simp only [AsyncBarrier.callStep, hcanceled] at hs
      cases hs
      exact .go hp rfl rfl le_rfl fun _ => Nat.add_lt_add_left (by decide) _
  | suspend p =>
      simp only [AsyncBarrier.callStep, if_neg hadvice] at hs
      cases hs
      exact .go hp rfl rfl le_rfl fun _ => Nat.add_lt_add_left (by decide) _
  | readyRelease p =>
      cases hs
      split_ifs
      · exact .readyRelease p hp
      · exact .go hp rfl rfl le_rfl fun _ => Nat.add_lt_add_left (by decide) _
  | loadCount =>
      cases hs
      exact .go hp rfl rfl le_rfl fun _ => Nat.add_lt_add_left (by decide) _
  | enqueue p mustSuspend count =>
      cases hs
      exact .enqueue p mustSuspend count hp
  | isCanceledAgain p mustSuspend count =>
      cases hs
      rw [if_neg (by rw [hcanceled]; exact Bool.false_ne_true)]
      refine .go hp rfl rfl le_rfl fun _ => ?_
      simp only [Call.distance]
      split_ifs <;> omega
  | arrive p mustSuspend count =>
      have hlt := hfits.localCount_lt count rfl
      cases hs
      split_ifs with h₁ h₂ h₃
      · omega
      · refine .go hp rfl rfl le_rfl fun _ => ?_
        simp only [Call.distance]
        split_ifs <;> omega
      · refine .go hp rfl rfl le_rfl fun hspurious => ?_
        have hne : count ≠ s.count := fun he => by simp [hspurious, he] at h₃
        simp [Call.distance, hne]
      · obtain rfl : count = s.count := by
          by_contra hne
          exact h₃ (.inr fun he => hne he.symm)
        exact .increment p mustSuspend hp
  | assertCount p =>
      cases hs
      rw [if_pos (h.inv.calls.count_lt p)]
      exact .go hp rfl rfl le_rfl fun _ => Nat.one_pos
  | releaseLoad p mustSuspend =>
      cases hs
      rw [if_pos (hfits.last rfl)]
      exact .go hp rfl rfl le_rfl fun _ => Nat.add_lt_add_left (by decide) _
  | releaseStore releaser =>
      cases hs
      exact .store releaser hp
  | releaseDequeue releaser left =>
      cases left with
      | zero =>
          cases hs
          exact .returnRelease releaser hp
      | succ left =>
          cases hlist : s.waitList with
          | nil =>
              exact absurd hlist (h.waitList_ne_nil hp)
          | cons node rest =>
              simp only [AsyncBarrier.callStep, hlist] at hs
              cases hs
              obtain ⟨hawaits, huncounted, hchanges, hle⟩ :=
                releaser.take_quiet (s := s) node left
              refine .goOn _ rest ?_ ?_ ?_ fun _ => ?_ <;> rw [hp]
              · exact hawaits
              · exact huncounted
              · exact hchanges.le
              · exact lt_of_le_of_lt hle (Nat.lt_add_of_pos_right (Nat.two_pos))
  | releaseSchedule releaser node left =>
      cases hs
      exact .schedule releaser node left hp

end Effects

theorem State.returnRelease_letGo (s : State Thread P) (t : Thread) (releaser : Releaser P) :
    (s.returnRelease t releaser).call = Function.update s.call t .idle ∧
    (∀ q, q ≠ releaser.participant → (s.returnRelease t releaser).co q = s.co q ∧
      (s.returnRelease t releaser).passed q = s.passed q ∧
      (s.returnRelease t releaser).released q = s.released q) ∧
    ((s.returnRelease t releaser).co releaser.participant = .scheduled ∧
        (s.returnRelease t releaser).passed releaser.participant =
          s.passed releaser.participant ∨
      (s.returnRelease t releaser).co releaser.participant = .running ∧
        (s.returnRelease t releaser).passed releaser.participant =
          s.passed releaser.participant + 1) := by
  cases releaser with
  | ready p =>
      exact ⟨rfl, fun q hq => ⟨Function.update_of_ne hq .., Function.update_of_ne hq ..,
        Function.update_of_ne hq ..⟩, .inr ⟨Function.update_self .., Function.update_self ..⟩⟩
  | suspend p mustSuspend skipped =>
      cases mustSuspend with
      | true =>
          exact ⟨rfl, fun q hq => ⟨Function.update_of_ne hq .., rfl, Function.update_of_ne hq ..⟩,
            .inl ⟨Function.update_self .., rfl⟩⟩
      | false =>
          exact ⟨rfl, fun q hq => ⟨Function.update_of_ne hq .., Function.update_of_ne hq ..,
            Function.update_of_ne hq ..⟩, .inr ⟨Function.update_self .., Function.update_self ..⟩⟩

section Attendance

/-- Whoever has arrived in this round has incremented `m_count` or is in a call that is
going to; whoever waits has arrived or is in a call that is going to, and has rounds to go. -/
structure Attended (k : ℕ) (s : State Thread P) : Prop where
  counted : ∀ p, s.rounds < s.arrived p →
    s.counted p = true ∨ ∃ t, (s.call t).role.uncounted = some p
  inside : ∀ p, s.co p = .suspended ∨ s.co p = .arriving →
    s.released p < s.arrived p ∨ ∃ t, (s.call t).awaits = some p
  passed_le : ∀ p, s.passed p ≤ k
  passed_lt : ∀ p, s.co p ≠ .running → s.passed p < k

omit [DecidableEq P] in
theorem exists_call_of_update {α : Type*} (f : Call P → Option α) {a : α}
    (hcall : s'.call = Function.update s.call t c) (hc : f c = f (s.call t))
    (h : ∃ u, f (s.call u) = some a) : ∃ u, f (s'.call u) = some a := by
  obtain ⟨u, hu⟩ := h
  refine ⟨u, ?_⟩
  rw [hcall]
  by_cases hut : u = t
  · subst hut
    rw [Function.update_self, hc]
    exact hu
  · rw [Function.update_of_ne hut]
    exact hu

omit [DecidableEq P] in
theorem exists_call_of_ne {α : Type*} (f : Call P → Option α) {a : α}
    (hcall : s'.call = Function.update s.call t c) (hc : f (s.call t) ≠ some a)
    (h : ∃ u, f (s.call u) = some a) : ∃ u, f (s'.call u) = some a := by
  obtain ⟨u, hu⟩ := h
  refine ⟨u, ?_⟩
  rw [hcall, Function.update_of_ne]
  · exact hu
  · rintro rfl
    exact hc hu

variable [Fintype P]

theorem Attended.arrive (h : Attended k s) (hi : RoundInv s) (hp : (s.call t).awaits = some p)
    (hcall : s'.call = Function.update s.call t c) (hc : c.role.uncounted = some p)
    (hrounds : s'.rounds = s.rounds) (hcounted : s'.counted = s.counted)
    (hreleased : s'.released = s.released) (hpassed : s'.passed = s.passed)
    (hself : s'.arrived p = s.arrived p + 1)
    (harrived : ∀ q, q ≠ p → s'.arrived q = s.arrived q) (hco : ∀ q, q ≠ p → s'.co q = s.co q) :
    Attended k s' := by
  have harrivals := hi.inv.arrivals
  have hplace := (harrivals.awaits t p hp).1
  have haway := (Call.of_awaits hp).1
  have hle := harrivals.ledger.left_le p
  refine ⟨fun q hq => ?_, fun q hq => ?_, fun q => ?_, fun q hq => ?_⟩
  · rw [hcounted]
    by_cases hqp : q = p
    · refine .inr ⟨t, ?_⟩
      rw [hqp, hcall, Function.update_self]
      exact hc
    · rw [hrounds, harrived q hqp] at hq
      refine (h.counted q hq).imp_right (exists_call_of_ne (fun c => c.role.uncounted) hcall ?_)
      rw [haway]
      nofun
  · rw [hreleased]
    by_cases hqp : q = p
    · rw [hqp, hself]
      exact .inl (by omega)
    · rw [hco q hqp] at hq
      rw [harrived q hqp]
      refine (h.inside q hq).imp_right (exists_call_of_ne Call.awaits hcall ?_)
      rw [hp]
      exact fun he => hqp (Option.some.inj he).symm
  · rw [hpassed]
    exact h.passed_le q
  · rw [hpassed]
    by_cases hqp : q = p
    · exact h.passed_lt q (by rw [hqp, hplace]; nofun)
    · exact h.passed_lt q (by rw [← hco q hqp]; exact hq)

omit [Fintype P] [DecidableEq P] in
theorem Attended.letGo (h : Attended k s) (hinside : s.co p ≠ .running)
    (hcall : s'.call = Function.update s.call t c) (hc : c.awaits = (s.call t).awaits)
    (huncounted : ∀ q, s.rounds < s.arrived q → (∃ u, (s.call u).role.uncounted = some q) →
      ∃ u, (s'.call u).role.uncounted = some q)
    (hrounds : s'.rounds = s.rounds) (hcounted : s'.counted = s.counted)
    (harrived : s'.arrived = s.arrived) (hreleased : ∀ q, q ≠ p → s'.released q = s.released q)
    (hco : ∀ q, q ≠ p → s'.co q = s.co q) (hpassed : ∀ q, q ≠ p → s'.passed q = s.passed q)
    (hself : s'.co p = .scheduled ∧ s'.passed p = s.passed p ∨
      s'.co p = .running ∧ s'.passed p = s.passed p + 1) : Attended k s' := by
  have hlt := h.passed_lt p hinside
  refine ⟨fun q hq => ?_, fun q hq => ?_, fun q => ?_, fun q hq => ?_⟩
  · rw [hrounds, harrived] at hq
    rw [hcounted]
    exact (h.counted q hq).imp_right (huncounted q hq)
  · have hqp : q ≠ p := by
      rintro rfl
      rcases hself with ⟨hplace, _⟩ | ⟨hplace, _⟩ <;> rw [hplace] at hq <;>
        rcases hq with hq | hq <;> cases hq
    rw [hco q hqp] at hq
    rw [harrived, hreleased q hqp]
    exact (h.inside q hq).imp_right (exists_call_of_update Call.awaits hcall hc)
  · by_cases hqp : q = p
    · subst hqp
      rcases hself with ⟨_, he⟩ | ⟨_, he⟩ <;> rw [he] <;> omega
    · rw [hpassed q hqp]
      exact h.passed_le q
  · by_cases hqp : q = p
    · subst hqp
      rcases hself with ⟨_, he⟩ | ⟨he, _⟩
      · rw [he]
        exact hlt
      · exact absurd he hq
    · rw [hpassed q hqp]
      rw [hco q hqp] at hq
      exact h.passed_lt q hq

theorem Attended.effect {spurious : Bool} (h : Attended k s) (hi : RoundInv s)
    (he : Effect s t spurious s') : Attended k s' := by
  have harrivals := hi.inv.arrivals
  cases he with
  | goOn c waitList hawaits huncounted _ _ =>
      exact ⟨fun p hp => (h.counted p hp).imp_right
          (exists_call_of_update (fun c => c.role.uncounted) rfl huncounted),
        fun p hp => (h.inside p hp).imp_right (exists_call_of_update Call.awaits rfl hawaits),
        h.passed_le, h.passed_lt⟩
  | enqueue p mustSuspend count hp =>
      exact h.arrive hi (p := p) (by rw [hp]; rfl) rfl rfl rfl rfl rfl rfl (Function.update_self ..)
        (fun q hq => Function.update_of_ne hq ..) fun q hq => Function.update_of_ne hq ..
  | readyRelease p hp =>
      exact h.arrive hi (p := p) (by rw [hp]; rfl) rfl rfl rfl rfl rfl rfl (Function.update_self ..)
        (fun q hq => Function.update_of_ne hq ..) fun _ _ => rfl
  | increment p mustSuspend hp => 
      refine ⟨fun q hq => ?_, fun q hq => (h.inside q hq).imp_right
        (exists_call_of_update Call.awaits rfl (by rw [hp]; rfl)), h.passed_le, h.passed_lt⟩
      by_cases hqp : q = p
      · subst hqp
        exact .inl (Function.update_self ..)
      · refine (h.counted q hq).imp (fun hcounted => ?_)
          (exists_call_of_ne (fun c => c.role.uncounted) rfl ?_)
        · exact (Function.update_of_ne hqp ..).trans hcounted
        · rw [hp]
          exact fun he => hqp (Option.some.inj he).symm
  | store releaser hp =>
      refine ⟨fun q hq => ?_, fun q hq => (h.inside q hq).imp_right
        (exists_call_of_update Call.awaits rfl (by rw [hp]; rfl)), h.passed_le, h.passed_lt⟩
      obtain ⟨k, hk⟩ := hi.inv.round hi.drained
      have hlt : s.rounds + 1 < s.arrived q := hq
      have hreleased := hk.released_le q
      have harrived := harrivals.ledger.le_left_add_one q
      omega
  | schedule releaser node left hp =>
      have hplace := harrivals.place node (harrivals.inside_of_held (x := .node) (by rw [hp]; rfl))
      refine h.letGo (p := node) ?_ rfl (by rw [hp]; rfl)
        (fun q _ => exists_call_of_update (fun c => c.role.uncounted) rfl (by rw [hp]; rfl))
        rfl rfl rfl (fun q hq => Function.update_of_ne hq ..)
        (fun q hq => Function.update_of_ne hq ..) (fun _ _ => rfl)
        (.inl ⟨Function.update_self .., rfl⟩)
      rcases hplace with hplace | hplace <;> rw [hplace] <;> nofun
  | returnRelease releaser hp =>
      have hinside := harrivals.inside_of_held (hi.inv.held_own hp)
      have hplace := harrivals.place _ hinside
      have hrole : (s.call t).role = .releasing releaser 0 none := by rw [hp]; rfl
      obtain ⟨_, j, hj⟩ := hi.inv.round_of_releases (t := t) (by rw [hrole]; rfl)
      have hreleased := ((hj.fits t).releasing releaser 0 none hrole).2.2.1
      have harrived := harrivals.ledger.le_left_add_one releaser.participant
      have hne : ∀ q, s.rounds < s.arrived q → (s.call t).role.uncounted ≠ some q := by
        rintro q hq he
        rw [hrole] at he
        obtain rfl := Option.some.inj he
        omega
      obtain ⟨hcall, hother, hself⟩ := s.returnRelease_letGo t releaser
      refine h.letGo ?_ hcall (by rw [hp]; rfl)
        (fun q hq => exists_call_of_ne (fun c => c.role.uncounted) hcall (hne q hq))
        (by cases releaser <;> rfl) (by cases releaser <;> rfl) (by cases releaser <;> rfl)
        (fun q hq => (hother q hq).2.2) (fun q hq => (hother q hq).1)
        (fun q hq => (hother q hq).2.1) hself
      rcases hplace with hplace | hplace <;> rw [hplace] <;> nofun

theorem Attended.step {a : Action Thread P} (h : Attended k s) (hi : RoundInv s)
    (hg : Rounds k s a) (hs : step s a = some s') : Attended k s' := by
  cases a with
  | await p t =>
      obtain ⟨⟨hco, hp⟩, he⟩ := Option.ite_none_right_eq_some.mp hs
      cases he
      refine ⟨fun q hq => (h.counted q hq).imp_right (exists_call_of_update
        (fun c => c.role.uncounted) rfl (by rw [hp]; rfl)), fun q hq => ?_, h.passed_le,
        fun q hq => ?_⟩
      · by_cases hqp : q = p
        · refine .inr ⟨t, ?_⟩
          change (Function.update s.call t (.ready p) t).awaits = _
          rw [Function.update_self, hqp]
          rfl
        · have hq : Function.update s.co p _ q = _ ∨ Function.update s.co p _ q = _ := hq
          rw [Function.update_of_ne hqp] at hq
          refine (h.inside q hq).imp_right (exists_call_of_ne Call.awaits rfl ?_)
          rw [hp]
          nofun
      · by_cases hqp : q = p
        · rw [hqp]
          exact hg
        · exact h.passed_lt q fun he => hq ((Function.update_of_ne hqp ..).trans he)
  | resume p =>
      obtain ⟨hco, he⟩ := Option.ite_none_right_eq_some.mp hs
      cases he
      have hlt := h.passed_lt p (by rw [hco]; nofun)
      refine ⟨h.counted, fun q hq => ?_, fun q => ?_, fun q hq => ?_⟩
      · have hqp : q ≠ p := by
          rintro rfl
          have hq : Function.update s.co q _ q = _ ∨ Function.update s.co q _ q = _ := hq
          rw [Function.update_self] at hq
          rcases hq with hq | hq <;> cases hq
        have hq : Function.update s.co p _ q = _ ∨ Function.update s.co p _ q = _ := hq
        rw [Function.update_of_ne hqp] at hq
        exact h.inside q hq
      · change Function.update s.passed p (s.passed p + 1) q ≤ k
        by_cases hqp : q = p
        · rw [hqp, Function.update_self]
          exact hlt
        · rw [Function.update_of_ne hqp]
          exact h.passed_le q
      · have hqp : q ≠ p := by
          rintro rfl
          exact hq (Function.update_self ..)
        change Function.update s.passed p (s.passed p + 1) q < k
        rw [Function.update_of_ne hqp]
        exact h.passed_lt q fun he => hq ((Function.update_of_ne hqp ..).trans he)
  | cancel t => exact hg.elim
  | call t advice spurious => exact h.effect hi (hi.effect hg hs)

omit [Fintype P] in
theorem Effect.capacity_eq {spurious : Bool} (he : Effect s t spurious s') :
    s'.capacity = s.capacity := by
  cases he with
  | returnRelease releaser hp => cases releaser <;> rfl
  | _ => rfl

structure Attends (k : ℕ) (s : State Thread P) : Prop where
  round : RoundInv s
  attended : Attended k s
  capacity : s.capacity = Fintype.card P

theorem Attends.step {a : Action Thread P} (h : Attends k s) (hg : Rounds k s a)
    (hs : step s a = some s') : Attends k s' := by
  refine ⟨h.round.step hg.uncanceled hs, h.attended.step h.round hg hs, h.capacity ▸ ?_⟩
  cases a with
  | await p t =>
      obtain ⟨_, he⟩ := Option.ite_none_right_eq_some.mp hs
      cases he
      rfl
  | resume p =>
      obtain ⟨_, he⟩ := Option.ite_none_right_eq_some.mp hs
      cases he
      rfl
  | cancel t => exact hg.elim
  | call t advice spurious => exact (h.round.effect hg hs).capacity_eq

theorem attends_of_reach
    (hs : ((system Thread P (Fintype.card P)).restrict (Rounds k)).Reach s) : Attends k s := by
  refine hs.reachWhile.invariant (fun s h => ?_) fun s a s' hi hg ha => hi.step hg ha
  obtain rfl : s = initial (Fintype.card P) := h
  refine ⟨⟨inv_initial le_rfl, rfl, fun _ => rfl, fun _ => rfl⟩,
    ⟨fun _ hlt => absurd hlt (Nat.lt_irrefl 0), fun p hco => ?_, fun _ => Nat.zero_le k,
      fun _ hco => absurd rfl hco⟩, rfl⟩
  rcases hco with hco | hco <;> cases hco

omit [DecidableEq Thread] [DecidableEq P] in
/-- At rest not everybody waits. -/
theorem Attends.exists_outside (h : Attends k s) (hidle : ∀ t, s.call t = .idle) (p : P) :
    ∃ q, s.co q = .running ∨ s.co q = .scheduled := by
  by_contra! hnone
  have hreleased : ∀ q, s.released q = s.rounds := fun q =>
    h.round.released_eq fun t => by rw [hidle t]; rfl
  have hcounted : ∀ q, s.counted q = true := by
    intro q
    have hplace : s.co q = .suspended ∨ s.co q = .arriving := by
      obtain ⟨hrunning, hscheduled⟩ := hnone q
      cases hco : s.co q with
      | running => exact absurd hco hrunning
      | scheduled => exact absurd hco hscheduled
      | suspended => exact .inl rfl
      | arriving => exact .inr rfl
    have hlt : s.released q < s.arrived q := by
      refine (h.attended.inside q hplace).resolve_right ?_
      rintro ⟨t, ht⟩
      rw [hidle t] at ht
      cases ht
    rw [hreleased q] at hlt
    refine (h.attended.counted q hlt).resolve_right ?_
    rintro ⟨t, ht⟩
    rw [hidle t] at ht
    cases ht
  obtain ⟨_, hk⟩ := h.round.inv.round h.round.drained
  have hall : (Finset.univ.filter fun q => s.counted q = true).card = Fintype.card P := by
    rw [Finset.filter_true_of_mem fun q _ => hcounted q, Finset.card_univ]
  have hcount := hk.count_eq
  have hlt := h.round.inv.calls.count_lt p
  rw [h.capacity] at hlt
  omega

/-- Everybody has gone through all rounds, and the barrier is as it was in the beginning. -/
def State.isThrough (k : ℕ) (s : State Thread P) : Prop :=
  (∀ t, s.call t = .idle) ∧ (∀ p, s.co p = .running ∧ s.passed p = k) ∧ s.count = 0 ∧
    s.waitList = []

omit [DecidableEq Thread] [DecidableEq P] in
theorem Attends.isThrough (h : Attends k s) (hidle : ∀ t, s.call t = .idle)
    (hpassed : ∀ p, s.co p = .running ∧ s.passed p = k) : s.isThrough k := by
  have hempty : s.waitList = [] := by
    refine List.eq_nil_iff_forall_not_mem.mpr fun p hp => ?_
    have hplace := h.round.inv.arrivals.place p (h.round.inv.arrivals.inside_of_mem hp)
    rw [(hpassed p).1] at hplace
    rcases hplace with hplace | hplace <;> cases hplace
  obtain ⟨j, hj⟩ := h.round.inv.round h.round.drained
  refine ⟨hidle, hpassed, ?_, hempty⟩
  rw [hj.count_eq, Finset.card_eq_zero, Finset.filter_eq_empty_iff]
  intro p _ hp
  have hmem := hj.counted p hp
  rw [hempty, List.drop_nil] at hmem
  cases hmem

/-- Until everybody is through somebody can go on. -/
theorem Attends.exists_step [Nonempty Thread] (h : Attends k s) (hnot : ¬s.isThrough k) :
    ∃ a s', a.failsSpuriously = false ∧ Rounds k s a ∧ AsyncBarrier.step s a = some s' := by
  by_cases hidle : ∀ t, s.call t = .idle
  · obtain ⟨p, hp⟩ : ∃ p, ¬(s.co p = .running ∧ s.passed p = k) :=
      not_forall.mp fun hall => hnot (h.isThrough hidle hall)
    obtain ⟨q, hq⟩ := h.exists_outside hidle p
    by_cases hscheduled : ∃ r, s.co r = .scheduled
    · obtain ⟨r, hr⟩ := hscheduled
      exact ⟨.resume r, _, rfl, trivial, if_pos hr⟩
    have hrunning : s.co q = .running := hq.resolve_right fun he => hscheduled ⟨q, he⟩
    have hpasses : ∀ r, s.passed r = s.rounds := by
      intro r
      have hpass := h.round.passes r
      unfold Passes at hpass
      rw [if_neg fun he => hscheduled ⟨r, he⟩,
        h.round.released_eq fun t => by rw [hidle t]; rfl] at hpass
      omega
    have hlt : s.passed q < k := by
      have hle := h.attended.passed_le p
      by_cases hco : s.co p = .running
      · have hne : s.passed p ≠ k := fun he => hp ⟨hco, he⟩
        rw [hpasses q, ← hpasses p]
        omega
      · have := h.attended.passed_lt p hco
        rw [hpasses q, ← hpasses p]
        omega
    obtain ⟨t⟩ := ‹Nonempty Thread›
    exact ⟨.await q t, _, rfl, hlt, if_pos ⟨hrunning, hidle t⟩⟩
  · obtain ⟨t, ht⟩ := not_forall.mp hidle
    have halive := (h.round.inv.calls.fits t).alive
    have hstep : ∃ s', callStep s t .maySuspend false (s.call t) = some s' := by
      cases hp : s.call t with
      | idle => exact absurd hp ht
      | failed => exact absurd hp halive
      | _ => exact ⟨_, rfl⟩
    obtain ⟨s', hs'⟩ := hstep
    exact ⟨.call t .maySuspend false, s', rfl, nofun, hs'⟩

end Attendance

section Rank

variable [Fintype Thread] [Fintype P]

def State.price (s : State Thread P) : ℕ := 4 * s.capacity + Fintype.card Thread + 23

def State.share (k : ℕ) (s : State Thread P) (p : P) : ℕ :=
  (s.co p).weight + s.price * s.credit k p

/-- What is left to do: a change of `m_count` puts every thread back by at most a step. -/
def State.rank (k : ℕ) (s : State Thread P) : ℕ :=
  ∑ t, (s.call t).distance s.capacity s.count +
    (Fintype.card Thread + 1) * ∑ t, (s.call t).changes + ∑ p, s.share k p

omit [DecidableEq Thread] in
theorem sum_share (hcapacity : s'.capacity = s.capacity)
    (hother : ∀ q, q ≠ p → s'.co q = s.co q ∧ s'.passed q = s.passed q) :
    ∑ q, s'.share k q + ((s.co p).weight + s.price * s.credit k p) =
      ∑ q, s.share k q + ((s'.co p).weight + s.price * s'.credit k p) := by
  have hprice : s'.price = s.price := by unfold State.price; rw [hcapacity]
  have hupdate : s'.share k = Function.update (s.share k) p (s'.share k p) := by
    refine Function.eq_update_iff.mpr ⟨rfl, fun q hq => ?_⟩
    unfold State.share State.credit
    rw [(hother q hq).1, (hother q hq).2, hprice]
  have hsum := sum_update_tally (s.share k) id p (s'.share k p)
  rw [← hupdate] at hsum
  rw [← hprice]
  nth_rewrite 1 [hprice]
  exact hsum

omit [DecidableEq Thread] in
theorem sum_share_le (hcapacity : s'.capacity = s.capacity)
    (hother : ∀ q, q ≠ p → s'.co q = s.co q ∧ s'.passed q = s.passed q)
    (hself : s'.passed p = s.passed p ∧ s'.co p ≠ .running ∨ s'.passed p = s.passed p + 1) :
    ∑ q, s'.share k q ≤ ∑ q, s.share k q + (s'.co p).weight := by
  have hsum := sum_share (k := k) hcapacity hother
  have hcredit : s'.credit k p ≤ s.credit k p := by
    unfold State.credit
    rcases hself with ⟨he, hco⟩ | he
    · rw [he, if_neg hco]
      split_ifs <;> omega
    · rw [he]
      split_ifs <;> omega
  have := Nat.mul_le_mul_left s.price hcredit
  omega

omit [DecidableEq P] in
/-- A call has changed `m_count`, or has come nearer to its return. -/
theorem rank_lt {x : ℕ} (hcapacity : s'.capacity = s.capacity)
    (hcall : s'.call = Function.update s.call t c)
    (hshares : ∑ p, s'.share k p ≤ ∑ p, s.share k p + x)
    (hnearer : c.changes < (s.call t).changes ∧
        c.distance s.capacity s.count + x ≤ (s.call t).distance s.capacity s.count ∨
      s'.count = s.count ∧ c.changes ≤ (s.call t).changes ∧
        c.distance s.capacity s.count + x < (s.call t).distance s.capacity s.count) :
    s'.rank k < s.rank k := by
  have hdistance := sum_update_tally s.call (Call.distance s.capacity s.count) t c
  have hchanges := sum_update_tally s.call Call.changes t c
  rw [← hcall] at hdistance hchanges
  unfold State.rank
  rw [hcapacity]
  rcases hnearer with ⟨hlt, hle⟩ | ⟨hcount, hle, hlt⟩
  · have hback : ∑ u, (s'.call u).distance s.capacity s'.count ≤
        ∑ u, (s'.call u).distance s.capacity s.count + Fintype.card Thread := by
      have hsum : ∑ u, (s'.call u).distance s.capacity s'.count ≤
          ∑ u, ((s'.call u).distance s.capacity s.count + 1) :=
        Finset.sum_le_sum fun u _ => (s'.call u).distance_le ..
      rw [Finset.sum_add_distrib, Finset.sum_const_nat fun _ _ => rfl, Finset.card_univ,
        Nat.mul_one] at hsum
      exact hsum
    have hfewer : ∑ u, (s'.call u).changes + 1 ≤ ∑ u, (s.call u).changes := by omega
    have hmul := Nat.mul_le_mul_left (Fintype.card Thread + 1) hfewer
    rw [Nat.mul_add, Nat.mul_one] at hmul
    omega
  · have hmul := Nat.mul_le_mul_left (Fintype.card Thread + 1)
      (show ∑ u, (s'.call u).changes ≤ ∑ u, (s.call u).changes by omega)
    rw [hcount]
    omega

theorem Effect.rank_lt (he : Effect s t false s') : s'.rank k < s.rank k := by
  cases he with
  | goOn c waitList _ _ hchanges hnearer =>
      exact AsyncBarrier.rank_lt (x := 0) rfl rfl le_rfl (.inr ⟨rfl, hchanges, hnearer rfl⟩)
  | enqueue p mustSuspend count hp =>
      have hco : Function.update s.co p .suspended p = .suspended := Function.update_self ..
      refine AsyncBarrier.rank_lt rfl rfl (sum_share_le (p := p) rfl
        (fun q hq => ⟨Function.update_of_ne hq .., rfl⟩) (.inl ⟨rfl, ?_⟩)) (.inr ⟨rfl, ?_, ?_⟩)
      · exact fun he => Place.noConfusion (hco.symm.trans he)
      · rw [hp]
        exact le_rfl
      · change _ + (Function.update s.co p .suspended p).weight < _
        rw [hp, hco]
        simp only [Call.distance, Place.weight]
        omega
  | readyRelease p hp =>
      refine AsyncBarrier.rank_lt (x := 0) rfl rfl le_rfl (.inr ⟨rfl, ?_, ?_⟩)
      · rw [hp]
        exact le_rfl
      · rw [hp]
        exact Nat.add_lt_add_left (by decide) _
  | increment p mustSuspend hp =>
      refine AsyncBarrier.rank_lt (x := 0) rfl rfl le_rfl (.inl ⟨?_, ?_⟩)
      · rw [hp]
        exact Nat.one_pos
      · rw [hp]
        simp [Call.distance]
  | store releaser hp =>
      have hle : s.dequeCount releaser ≤ s.capacity := by
        cases releaser with
        | ready => exact Nat.sub_le ..
        | suspend => exact le_rfl
      refine AsyncBarrier.rank_lt (x := 0) rfl rfl le_rfl (.inl ⟨?_, ?_⟩)
      · rw [hp]
        exact Nat.one_pos
      · rw [hp]
        simp only [Call.distance]
        omega
  | schedule releaser node left hp =>
      have hco : Function.update s.co node .scheduled node = .scheduled := Function.update_self ..
      refine AsyncBarrier.rank_lt rfl rfl (sum_share_le (p := node) rfl
        (fun q hq => ⟨Function.update_of_ne hq .., rfl⟩) (.inl ⟨rfl, ?_⟩)) (.inr ⟨rfl, ?_, ?_⟩)
      · exact fun he => Place.noConfusion (hco.symm.trans he)
      · rw [hp]
        exact le_rfl
      · change _ + (Function.update s.co node .scheduled node).weight < _
        rw [hp, hco]
        simp only [Call.distance, Place.weight]
        omega
  | returnRelease releaser hp =>
      obtain ⟨hcall, hother, hself⟩ := s.returnRelease_letGo t releaser
      refine AsyncBarrier.rank_lt (by cases releaser <;> rfl) hcall
        (sum_share_le (by cases releaser <;> rfl)
          (fun q hq => ⟨(hother q hq).1, (hother q hq).2.1⟩) ?_)
        (.inr ⟨by cases releaser <;> rfl, Nat.zero_le _, ?_⟩)
      · exact hself.imp (fun ⟨hco, he⟩ => ⟨he, by rw [hco]; nofun⟩) fun ⟨_, he⟩ => he
      · rw [hp]
        rcases hself with ⟨hco, _⟩ | ⟨hco, _⟩ <;> rw [hco] <;> exact Nat.le_of_ble_eq_true rfl

omit [DecidableEq Thread] in
theorem rank_lt_of_resume (hco : s.co p = .scheduled) :
    State.rank k { s.move p .running with
      passed := Function.update s.passed p (s.passed p + 1) } < s.rank k := by
  let s' := { s.move p .running with passed := Function.update s.passed p (s.passed p + 1) }
  have hco' : s'.co p = .running := Function.update_self ..
  have hpassed : s'.passed p = s.passed p + 1 := Function.update_self ..
  have hsum : ∑ q, s'.share k q + _ = ∑ q, s.share k q + _ := sum_share (p := p) rfl
    fun q hq => ⟨Function.update_of_ne hq .., Function.update_of_ne hq ..⟩
  have hcredit : s'.credit k p = s.credit k p := by
    unfold State.credit
    rw [hco', hpassed, hco]
    simp only [reduceCtorEq, reduceIte]
    omega
  rw [hcredit, hco, hco'] at hsum
  simp only [Place.weight] at hsum
  have hrank : s'.rank k = ∑ t, (s.call t).distance s.capacity s.count +
      (Fintype.card Thread + 1) * ∑ t, (s.call t).changes + ∑ q, s'.share k q := rfl
  change s'.rank k < _
  rw [hrank]
  unfold State.rank
  omega

theorem rank_lt_of_await (hco : s.co p = .running) (hp : s.call t = .idle) (hlt : s.passed p < k) :
    State.rank k ((s.go t (.ready p)).move p .arriving) < s.rank k := by
  let s' := (s.go t (.ready p)).move p .arriving
  have hco' : s'.co p = .arriving := Function.update_self ..
  have hsum : ∑ q, s'.share k q + _ = ∑ q, s.share k q + _ := sum_share (p := p) rfl
    fun q hq => ⟨Function.update_of_ne hq .., rfl⟩
  have hcredit : s.credit k p = s'.credit k p + 1 := by
    unfold State.credit
    rw [hco, hco', show s'.passed p = s.passed p from rfl]
    simp only [reduceCtorEq, reduceIte]
    omega
  have hdistance := sum_update_tally s.call (Call.distance s.capacity s.count) t (.ready p)
  have hchanges := sum_update_tally s.call Call.changes t (.ready p)
  rw [hp] at hdistance hchanges
  rw [hcredit, hco, hco', Nat.mul_add, Nat.mul_one] at hsum
  have hprice : s.price = 4 * s.capacity + Fintype.card Thread + 23 := rfl
  have hmul : (Fintype.card Thread + 1) * ∑ u, (s'.call u).changes =
      (Fintype.card Thread + 1) * ∑ u, (s.call u).changes + (Fintype.card Thread + 1) := by
    rw [← Nat.mul_add_one]
    exact congrArg _ hchanges
  have hidle : (Call.idle : Call P).distance s.capacity s.count = 0 := rfl
  have hready : (Call.ready p).distance s.capacity s.count = 4 * s.capacity + 19 := rfl
  rw [hidle, hready] at hdistance
  have hrank : s'.rank k =
      ∑ u, (Function.update s.call t (.ready p) u).distance s.capacity s.count +
        (Fintype.card Thread + 1) * ∑ u, (s'.call u).changes + ∑ q, s'.share k q := rfl
  simp only [Place.weight] at hsum
  change s'.rank k < _
  rw [hrank]
  unfold State.rank
  omega

theorem rank_lt_of_step {a : Action Thread P} (h : RoundInv s) (hg : Rounds k s a)
    (ha : a.failsSpuriously = false) (hs : step s a = some s') : s'.rank k < s.rank k := by
  cases a with
  | await p t =>
      obtain ⟨⟨hco, hp⟩, he⟩ := Option.ite_none_right_eq_some.mp hs
      cases he
      exact rank_lt_of_await hco hp hg
  | resume p =>
      obtain ⟨hco, he⟩ := Option.ite_none_right_eq_some.mp hs
      cases he
      exact rank_lt_of_resume hco
  | cancel t => exact hg.elim
  | call t advice spurious =>
      obtain rfl : spurious = false := ha
      exact (h.effect hg hs).rank_lt

end Rank

/-- As many participants as the capacity, each with `k` rounds to go through, all get through
them, in whatever order the threads go on. The barrier then is as it was in the beginning. -/
theorem everybody_gets_through [Fintype Thread] [Nonempty Thread] [Fintype P]
    (hs : ((system Thread P (Fintype.card P)).restrict (Rounds k)).Reach s) :
    ((system Thread P (Fintype.card P)).restrict (Rounds k)).Inevitable
      (fun a => a.failsSpuriously = false) (State.isThrough k) s := by
  refine StepSystem.inevitable_at_rest (R := State.isThrough k) (State.rank k)
    (fun s hr hnot => ?_) (fun s a s' hr ha hstep => ?_) (fun _ _ hthrough => hthrough) hs
  · obtain ⟨a, s', ha, hg, hstep⟩ := (attends_of_reach hr).exists_step hnot
    exact ⟨a, s', ha, (if_pos hg).trans hstep⟩
  · obtain ⟨hg, hstep'⟩ := Option.ite_none_right_eq_some.mp hstep
    exact ⟨StepSystem.Reach.step hr hstep,
      rank_lt_of_step (attends_of_reach hr).round hg ha hstep'⟩

/-- Two participants go through two rounds; the first one is in the wait list and the second
one is about to await the barrier. -/
theorem everybody_gets_through_twice : ∃ s : State (Fin 3) (Fin 2),
    s.waitList = [0] ∧ s.call 1 = .ready 1 ∧
      ((system (Fin 3) (Fin 2) 2).restrict (Rounds 2)).Inevitable
        (fun a => a.failsSpuriously = false) (State.isThrough 2) s := by
  obtain ⟨s, hr, hlist, hcall⟩ :=
    StepSystem.Reach.exists_of_exec (M := (system (Fin 3) (Fin 2) 2).restrict (Rounds 2))
      (P := fun s => s.waitList = [0] ∧ s.call 1 = .ready 1) (s := initial 2) (.start rfl)
      (.await 0 0 :: turns 0 11 ++ [.await 1 1]) (by decide)
  exact ⟨s, hlist, hcall, everybody_gets_through hr⟩

end LevelzAsync.AsyncBarrier
