import LevelzAsync.AsyncBarrierRuns

/-!
# Rounds and cancellation of the barrier

Without a cancellation the participants pass the barrier round by round. With one
the calls still find what they go by as long as no drain and no release get in
each other's way, and a barrier at rest that was cancelled has an empty wait list.
-/

namespace LevelzAsync.AsyncBarrier

variable {Thread P : Type*} [DecidableEq Thread] {s s' : State Thread P} {t : Thread} {c : Call P}
  {p : P}

section Watched

theorem Watched.of_responsible (hcall : s'.call = Function.update s.call t c)
    (hc : c.responsible = true) : Watched s' := fun _ _ =>
  ⟨t, by rw [hcall, Function.update_self]; exact hc⟩

/-- A call that stops looking has found an empty list, or a barrier that is not
cancelled. -/
theorem Watched.go (h : Watched s) (hcall : s'.call = Function.update s.call t c)
    (hcanceled : s'.canceled = true → s.canceled = true)
    (hlist : s'.waitList ≠ [] → s.waitList ≠ [])
    (hc : (s.call t).responsible = true → s'.canceled = true → s'.waitList ≠ [] →
      c.responsible = true) : Watched s' := by
  intro hs hne
  obtain ⟨u, hu⟩ := h (hcanceled hs) (hlist hne)
  refine ⟨u, ?_⟩
  by_cases hut : u = t
  · subst hut
    rw [hcall, Function.update_self]
    exact hc hu hs hne
  · rw [hcall, Function.update_of_ne hut]
    exact hu

variable [DecidableEq P]

theorem Watched.returnRelease (h : Watched s) (hp : (s.call t).responsible = false)
    (releaser : Releaser P) : Watched (s.returnRelease t releaser) := by
  have hquiet : (s.call t).responsible = true → False := fun hr => by rw [hp] at hr; cases hr
  cases releaser <;> exact h.go (c := .idle) rfl id id fun hr => (hquiet hr).elim

theorem Watched.callStep {advice : SuspensionAdvice} {spurious : Bool} (h : Watched s)
    (hs : callStep s t advice spurious (s.call t) = some s') : Watched s' := by
  have hquiet : ∀ {q c : Call P}, s.call t = q → q.responsible = false → Watched (s.go t c) :=
    fun hp hq => h.go rfl id id fun hr => by rw [hp, hq] at hr; cases hr
  have hleave : ∀ {q : Call P} {p : P} {mustSuspend : Bool}, s.call t = q →
      q.responsible = false → Watched (s.leave t p mustSuspend) := fun hp hq =>
    h.go (c := .idle) rfl id id fun hr => by rw [hp, hq] at hr; cases hr
  cases hp : s.call t with
  | idle | failed =>
      rw [hp] at hs
      cases hs
  | ready p =>
      rw [hp] at hs
      cases hs
      cases advice with
      | shouldNotSuspend => exact hleave hp rfl
      | shouldSuspend => exact hquiet hp rfl
      | maySuspend => exact hquiet hp rfl
  | readyIsCanceled | suspend | suspendIsCanceled | isCanceled =>
      rw [hp] at hs
      cases hs
      split_ifs
      · exact hleave hp rfl
      · exact hquiet hp rfl
  | readyRelease p =>
      rw [hp] at hs
      cases hs
      split_ifs
      · exact h.go rfl id id fun hr => by rw [hp] at hr; cases hr
      · exact hquiet hp rfl
  | loadCount | assertCount | releaseLoad | cancelIsCanceled =>
      rw [hp] at hs
      cases hs
      exact hquiet hp rfl
  | enqueue | cancelMark =>
      rw [hp] at hs
      cases hs
      exact .of_responsible rfl rfl
  | isCanceledAgain p mustSuspend count =>
      rw [hp] at hs
      cases hs
      split_ifs with hc
      · exact .of_responsible rfl rfl
      · exact fun hc' _ => absurd hc' hc
  | arrive p mustSuspend count =>
      rw [hp] at hs
      cases hs
      split_ifs
      · exact hquiet hp rfl
      · exact hquiet hp rfl
      · exact hquiet hp rfl
      · exact h.go rfl id id fun hr => by rw [hp] at hr; cases hr
  | releaseStore | releaseSchedule =>
      rw [hp] at hs
      cases hs
      exact h.go rfl id id fun hr => by rw [hp] at hr; cases hr
  | releaseDequeue releaser left =>
      rw [hp] at hs
      cases left with
      | zero =>
          cases hs
          exact h.returnRelease (by rw [hp]; rfl) releaser
      | succ left =>
          cases hlist : s.waitList with
          | nil =>
              simp only [AsyncBarrier.callStep, hlist] at hs
              cases hs
              exact hquiet hp rfl
          | cons node rest =>
              simp only [AsyncBarrier.callStep, hlist] at hs
              cases hs
              exact h.go rfl id (fun _ => by rw [hlist]; exact List.cons_ne_nil _ _)
                fun hr => by rw [hp] at hr; cases hr
  | drainDequeue =>
      rw [hp] at hs
      cases hlist : s.waitList with
      | nil =>
          simp only [AsyncBarrier.callStep, hlist] at hs
          cases hs
          exact fun _ hne => absurd hlist hne
      | cons node rest =>
          simp only [AsyncBarrier.callStep, hlist] at hs
          cases hs
          exact .of_responsible rfl rfl
  | drainSchedule =>
      rw [hp] at hs
      cases hs
      exact .of_responsible rfl rfl

theorem watched_of_reach {capacity : ℕ} (hs : (system Thread P capacity).Reach s) :
    Watched s := by
  refine hs.invariant (fun s h => ?_) fun s a s' hw ha => ?_
  · obtain rfl : s = initial capacity := h
    nofun
  · cases a with
    | await p t =>
        obtain ⟨⟨_, hp⟩, he⟩ := Option.ite_none_right_eq_some.mp ha
        cases he
        exact hw.go rfl id id fun hr => by rw [hp] at hr; cases hr
    | resume p =>
        obtain ⟨_, he⟩ := Option.ite_none_right_eq_some.mp ha
        cases he
        exact hw
    | cancel t =>
        obtain ⟨hp, he⟩ := Option.ite_none_right_eq_some.mp ha
        cases he
        exact hw.go rfl id id fun hr => by rw [hp] at hr; cases hr
    | call t advice spurious => exact hw.callStep ha

end Watched

/-- The next steps of the call of one thread; the advice is `maySuspend`. -/
def turns (t : Fin 3) (n : ℕ) : List (Action (Fin 3) (Fin 2)) :=
  List.replicate n (.call t .maySuspend false)

section Rounds

/-- The thread pool does not shut down, the participants are not cancelled, and
nobody cancels the barrier. -/
def Uncanceled (_ : State Thread P) : Action Thread P → Prop
  | .cancel _ => False
  | .call _ advice _ => advice ≠ .shouldNotSuspend
  | _ => True

omit [DecidableEq Thread] in
instance (s : State Thread P) (a : Action Thread P) : Decidable (Uncanceled s a) :=
  match a with
  | .cancel _ => .isFalse id
  | .call _ advice _ => inferInstanceAs (Decidable (advice ≠ .shouldNotSuspend))
  | .await .. | .resume _ => .isTrue trivial

/-- The participant has gone on as often as it was let go, or is about to. -/
def Passes (s : State Thread P) (p : P) : Prop :=
  s.released p = s.passed p + if s.co p = .scheduled then 1 else 0

def Call.cancels : Call P → Bool
  | cancelIsCanceled | cancelMark => true
  | _ => false

structure RoundInv [Fintype P] (s : State Thread P) : Prop where
  inv : Inv s
  canceled : s.canceled = false
  calls : ∀ t, (s.call t).cancels = false
  passes : ∀ p, Passes s p

variable [Fintype P]

omit [DecidableEq Thread] in
theorem RoundInv.drained (h : RoundInv s) : s.drained = false := by
  by_contra hd
  have := h.inv.calls.drained (by simpa using hd)
  rw [h.canceled] at this
  cases this

omit [DecidableEq Thread] in
theorem RoundInv.undisturbed (h : RoundInv s) (a : Action Thread P) : Undisturbed s a := by
  unfold Undisturbed
  split
  · split
    · exact fun _ => h.drained
    · exact fun _ => h.drained
    · next hp =>
        have := (h.inv.calls.fits _).drains (by rw [hp]; rfl)
        rw [h.canceled] at this
        cases this
    · trivial
  · trivial

theorem RoundInv.of_inv (h : RoundInv s) (hi : Inv s')
    (hcall : s'.call = Function.update s.call t c) (hc : c.cancels = false)
    (hcanceled : s'.canceled = s.canceled) (hpasses : ∀ p, Passes s' p) : RoundInv s' where
  inv := hi
  canceled := hcanceled.trans h.canceled
  calls u := by
    rw [hcall]
    by_cases hut : u = t
    · rw [hut, Function.update_self]
      exact hc
    · rw [Function.update_of_ne hut]
      exact h.calls u
  passes := hpasses

omit [DecidableEq Thread] [Fintype P] in
theorem Passes.of_other (h : Passes s p) (hco : s'.co p = s.co p)
    (hreleased : s'.released p = s.released p) (hpassed : s'.passed p = s.passed p) :
    Passes s' p := by
  unfold Passes at h ⊢
  rw [hco, hreleased, hpassed]
  exact h

omit [DecidableEq Thread] [Fintype P] in
theorem Passes.of_not_scheduled (h : Passes s p) (hco : s.co p ≠ .scheduled)
    (hco' : s'.co p ≠ .scheduled) (hreleased : s'.released p = s.released p)
    (hpassed : s'.passed p = s.passed p) : Passes s' p := by
  unfold Passes at h ⊢
  rw [if_neg hco] at h
  rw [if_neg hco', hreleased, hpassed]
  exact h

omit [DecidableEq Thread] in
theorem Inv.not_scheduled (h : Inv s) (hp : s.released p < s.arrived p) :
    s.co p ≠ .scheduled := by
  intro hco
  rcases h.arrivals.place p hp with hq | hq
  · rw [hco] at hq
    cases hq
  · rw [hco] at hq
    cases hq

variable [DecidableEq P]

theorem RoundInv.returnRelease {releaser : Releaser P} (h : RoundInv s)
    (hp : s.call t = .releaseDequeue releaser 0) (hi : Inv (s.returnRelease t releaser)) :
    RoundInv (s.returnRelease t releaser) := by
  have hco := h.inv.not_scheduled (h.inv.arrivals.inside_of_held (h.inv.held_own hp))
  have hself := h.passes releaser.participant
  unfold Passes at hself
  rw [if_neg hco] at hself
  cases releaser with
  | ready p =>
      have hpass : s.released p = s.passed p := hself
      refine h.of_inv hi rfl rfl rfl fun q => ?_
      by_cases hq : q = p
      · subst hq
        simp [Passes, State.returnRelease, State.leave, State.move, State.go, hpass]
      · exact (h.passes q).of_other (Function.update_of_ne hq _ _) (Function.update_of_ne hq _ _)
          (Function.update_of_ne hq _ _)
  | suspend p mustSuspend skipped =>
      have hpass : s.released p = s.passed p := hself
      refine h.of_inv hi rfl rfl rfl fun q => ?_
      by_cases hq : q = p
      · subst hq
        cases mustSuspend <;>
          simp [Passes, State.returnRelease, State.leave, State.move, State.go, hpass]
      · refine (h.passes q).of_other (Function.update_of_ne hq _ _) (Function.update_of_ne hq _ _)
          ?_
        cases mustSuspend with
        | true => rfl
        | false => exact Function.update_of_ne hq _ _

theorem RoundInv.callStep {advice : SuspensionAdvice} {spurious : Bool} (h : RoundInv s)
    (hadvice : advice ≠ .shouldNotSuspend) (hi : Inv s')
    (hs : callStep s t advice spurious (s.call t) = some s') : RoundInv s' := by
  have hstay : ∀ {c : Call P}, Inv (s.go t c) → c.cancels = false → RoundInv (s.go t c) :=
    fun hi hc => h.of_inv hi rfl hc rfl fun p => (h.passes p).of_other rfl rfl rfl
  have hcanceled := h.canceled
  have hinside : ∀ q x, (s.call t).held x = some q → s.co q ≠ .scheduled := fun q x hq =>
    h.inv.not_scheduled (h.inv.arrivals.inside_of_held hq)
  cases hp : s.call t with
  | idle | failed =>
      rw [hp] at hs
      cases hs
  | cancelIsCanceled | cancelMark =>
      have := h.calls t
      rw [hp] at this
      cases this
  | drainDequeue | drainSchedule =>
      have := (h.inv.calls.fits t).drains (by rw [hp]; rfl)
      rw [hcanceled] at this
      cases this
  | ready p =>
      rw [hp] at hs
      cases hs
      cases advice with
      | shouldNotSuspend => exact absurd rfl hadvice
      | shouldSuspend => exact hstay hi rfl
      | maySuspend => exact hstay hi rfl
  | readyIsCanceled | suspendIsCanceled | isCanceled =>
      rw [hp] at hs
      simp only [AsyncBarrier.callStep, hcanceled] at hs
      cases hs
      exact hstay hi rfl
  | suspend p =>
      rw [hp] at hs
      simp only [AsyncBarrier.callStep, if_neg hadvice] at hs
      cases hs
      exact hstay hi rfl
  | readyRelease p =>
      rw [hp] at hs
      simp only [AsyncBarrier.callStep] at hs
      split_ifs at hs
      · cases hs
        exact h.of_inv hi rfl rfl rfl fun q => (h.passes q).of_other rfl rfl rfl
      · cases hs
        exact hstay hi rfl
  | loadCount =>
      rw [hp] at hs
      cases hs
      exact hstay hi rfl
  | assertCount =>
      rw [hp] at hs
      cases hs
      exact h.of_inv hi rfl (by split_ifs <;> rfl) rfl fun q => (h.passes q).of_other rfl rfl rfl
  | releaseLoad =>
      rw [hp] at hs
      cases hs
      exact h.of_inv hi rfl (by split_ifs <;> rfl) rfl fun q => (h.passes q).of_other rfl rfl rfl
  | isCanceledAgain =>
      rw [hp] at hs
      cases hs
      exact h.of_inv hi rfl (by split_ifs <;> rfl) rfl fun q => (h.passes q).of_other rfl rfl rfl
  | enqueue p mustSuspend count =>
      have hco := (h.inv.arrivals.awaits t p (by rw [hp]; rfl)).1
      rw [hp] at hs
      cases hs
      refine h.of_inv hi rfl rfl rfl fun q => ?_
      by_cases hq : q = p
      · subst hq
        refine (h.passes q).of_not_scheduled (by rw [hco]; decide) ?_ rfl rfl
        change Function.update s.co q .suspended q ≠ .scheduled
        rw [Function.update_self]
        decide
      · exact (h.passes q).of_other (Function.update_of_ne hq _ _) rfl rfl
  | arrive p mustSuspend count =>
      rw [hp] at hs
      simp only [AsyncBarrier.callStep] at hs
      split_ifs at hs
      · cases hs
        exact hstay hi rfl
      · cases hs
        exact hstay hi rfl
      · cases hs
        exact hstay hi rfl
      · cases hs
        exact h.of_inv hi rfl rfl rfl fun q => (h.passes q).of_other rfl rfl rfl
  | releaseStore =>
      rw [hp] at hs
      cases hs
      exact h.of_inv hi rfl rfl rfl fun q => (h.passes q).of_other rfl rfl rfl
  | releaseSchedule releaser node left =>
      have hco := hinside node .node (by rw [hp]; rfl)
      rw [hp] at hs
      cases hs
      refine h.of_inv hi rfl rfl rfl fun q => ?_
      by_cases hq : q = node
      · subst hq
        have hq := h.passes q
        unfold Passes at hq ⊢
        rw [if_neg hco] at hq
        simp [State.schedule, State.move, State.go, hq]
      · exact (h.passes q).of_other (Function.update_of_ne hq _ _) (Function.update_of_ne hq _ _)
          rfl
  | releaseDequeue releaser left =>
      rw [hp] at hs
      cases left with
      | zero =>
          cases hs
          exact h.returnRelease hp hi
      | succ left =>
          cases hlist : s.waitList with
          | nil =>
              simp only [AsyncBarrier.callStep, hlist] at hs
              cases hs
              exact hstay hi rfl
          | cons node rest =>
              simp only [AsyncBarrier.callStep, hlist] at hs
              cases hs
              refine h.of_inv hi rfl ?_ rfl fun q => (h.passes q).of_other rfl rfl rfl
              cases releaser with
              | ready p => rfl
              | suspend p mustSuspend skipped =>
                  by_cases hq : node = p <;> simp [Releaser.take, hq, Call.cancels]

theorem RoundInv.step {a : Action Thread P} (h : RoundInv s) (hg : Uncanceled s a)
    (hs : step s a = some s') : RoundInv s' := by
  have hi := h.inv.step (h.undisturbed a) hs
  cases a with
  | await p t =>
      obtain ⟨⟨hco, hp⟩, he⟩ := Option.ite_none_right_eq_some.mp hs
      cases he
      refine h.of_inv hi rfl rfl rfl fun q => ?_
      by_cases hq : q = p
      · subst hq
        refine (h.passes q).of_not_scheduled (by rw [hco]; nofun) ?_ rfl rfl
        change Function.update s.co q .arriving q ≠ .scheduled
        rw [Function.update_self]
        nofun
      · exact (h.passes q).of_other (Function.update_of_ne hq _ _) rfl rfl
  | resume p =>
      obtain ⟨hco, he⟩ := Option.ite_none_right_eq_some.mp hs
      cases he
      refine ⟨hi, h.canceled, h.calls, fun q => ?_⟩
      by_cases hq : q = p
      · subst hq
        have hpass := h.passes q
        unfold Passes at hpass ⊢
        rw [if_pos hco] at hpass
        simp [State.move, hpass]
      · exact (h.passes q).of_other (Function.update_of_ne hq _ _) rfl
          (Function.update_of_ne hq _ _)
  | cancel t => exact hg.elim
  | call t advice spurious => exact h.callStep hg hi hs

theorem roundInv_of_reachWhile
    (hs : (system Thread P (Fintype.card P)).ReachWhile Uncanceled s) : RoundInv s := by
  refine hs.invariant (fun s h => ?_) fun s a s' hi hg ha => hi.step hg ha
  obtain rfl : s = initial (Fintype.card P) := h
  exact ⟨inv_initial le_rfl, rfl, fun _ => rfl, fun _ => rfl⟩

omit [DecidableEq Thread] [DecidableEq P] in
/-- Whoever has not been let go in this round is released by the call under way. -/
theorem RoundInv.released_eq (h : RoundInv s) (hnobody : ∀ t, (s.call t).role.releases = false) :
    s.released p = s.rounds := by
  obtain ⟨k, hk⟩ := h.inv.round h.drained
  obtain rfl : k = 0 := hk.idle fun t => by
    have := hnobody t
    cases hrole : (s.call t).role with
    | releasing releaser left node =>
        rw [hrole] at this
        cases this
    | _ => rfl
  have hle := hk.released_le p
  have hrounds := hk.rounds_le p
  have hledger := h.inv.arrivals.ledger
  by_contra hne
  obtain ⟨place, hplace, _⟩ := hledger.existsUnique_place (c := p) (by omega)
  have hinside := hledger.inside p ⟨place, hplace⟩
  cases place with
  | inl _ =>
      have := hk.fresh p (by rw [List.drop_zero]; exact hplace)
      omega
  | inr hand =>
      obtain ⟨t, x⟩ := hand
      have hheld : (s.call t).held x = some p := hplace
      have hquiet := hnobody t
      have hdrains := (h.inv.calls.fits t).drains
      rw [h.canceled] at hdrains
      cases hp : s.call t with
      | releaseStore | releaseDequeue | releaseSchedule =>
          rw [hp] at hquiet
          cases hquiet
      | drainSchedule =>
          rw [hp] at hdrains
          cases hdrains rfl
      | _ =>
          rw [hp] at hheld
          cases x <;> cases hheld

/-- As many participants as the capacity pass the barrier round by round. -/
theorem passed_le_arrived (hs : (system Thread P (Fintype.card P)).ReachWhile Uncanceled s) :
    (∀ t, s.call t ≠ .failed) ∧
    (∀ p q, s.passed p ≤ s.arrived q) ∧
    (∀ p, s.arrived p ≤ s.passed p + 1) ∧
    (∀ p, s.released p = s.passed p + if s.co p = .scheduled then 1 else 0) ∧
    (∀ p, s.released p ≤ s.rounds ∧ s.rounds ≤ s.arrived p ∧ s.arrived p ≤ s.released p + 1) ∧
    ((∀ t, (s.call t).role.releases = false) → ∀ p, s.released p = s.rounds) ∧
    ∀ t releaser p left, s.call t = .releaseSchedule releaser p left →
      s.released p < s.rounds ∧ s.arrived p = s.rounds := by
  have h := roundInv_of_reachWhile hs
  obtain ⟨k, hk⟩ := h.inv.round h.drained
  have hledger := h.inv.arrivals.ledger
  have hpasses : ∀ p, s.released p = s.passed p + if s.co p = .scheduled then 1 else 0 := h.passes
  refine ⟨fun t => (h.inv.calls.fits t).alive, fun p q => ?_, fun p => ?_, hpasses,
    fun p => ⟨hk.released_le p, hk.rounds_le p, hledger.le_left_add_one p⟩,
    fun hnobody p => h.released_eq hnobody, fun t releaser p left hp => ?_⟩
  · have := hk.released_le p
    have := hk.rounds_le q
    have := hpasses p
    omega
  · have hle := hledger.le_left_add_one p
    have hp := hpasses p
    split_ifs at hp with hco
    · have : ¬ s.released p < s.arrived p := fun hlt => h.inv.not_scheduled hlt hco
      omega
    · omega
  · have hlt := ((hk.fits t).releasing releaser left (some p) (by rw [hp]; rfl)).2.2.2 p rfl
    have := hk.rounds_le p
    have := hledger.le_left_add_one p
    exact ⟨hlt, by omega⟩

theorem passed_le_arrived_once : ∃ s, (system (Fin 3) (Fin 2) 2).Reach s ∧
    (∀ p, s.passed p = 1) ∧ ∀ p q, s.passed p ≤ s.arrived q := by
  obtain ⟨s, hs, hpassed⟩ :=
    StepSystem.Reach.exists_of_exec (M := (system (Fin 3) (Fin 2) 2).restrict Uncanceled)
      (P := fun s => ∀ p, s.passed p = 1) (s := initial 2) (.start rfl)
      (.await 0 0 :: turns 0 11 ++ .await 1 1 :: turns 1 7 ++ [.resume 0]) (by decide)
  have hg := hs.reachWhile
  exact ⟨s, hg.reach, hpassed, (passed_le_arrived hg).2.1⟩

end Rounds

section Cancellation

variable [DecidableEq P] [Fintype P] {capacity : ℕ}

/-- While drains and releases keep out of each other's way, no call dereferences a null
node or fails an assertion, every arrival is let go exactly once, and a cancelled
barrier at rest has nobody in its wait list. -/
theorem no_waiter_of_canceled (hcard : Fintype.card P ≤ capacity)
    (hs : (system Thread P capacity).ReachWhile Undisturbed s) :
    (∀ t, s.call t ≠ .failed) ∧
    (∀ p, s.released p ≤ s.arrived p ∧ s.arrived p ≤ s.released p + 1 ∧
      (s.released p < s.arrived p →
        ∃! place, StoredAt (fun _ : Unit => s.waitList) s.holds p place)) ∧
    (s.canceled = true → (∀ t, s.call t = .idle) →
      s.waitList = [] ∧ ∀ p, s.arrived p = s.released p) := by
  have hi := inv_of_reachWhile hcard hs
  have hledger := hi.arrivals.ledger
  refine ⟨fun t => (hi.calls.fits t).alive, fun p => ⟨hledger.left_le p, hledger.le_left_add_one p,
    hledger.existsUnique_place⟩, fun hcanceled hidle => ?_⟩
  have hempty : s.waitList = [] := by
    by_contra hne
    obtain ⟨t, ht⟩ := watched_of_reach hs.reach hcanceled hne
    rw [hidle t] at ht
    cases ht
  refine ⟨hempty, fun p => hledger.outside p ?_⟩
  apply not_inCustody_of_empty
  · exact fun _ => hempty
  · rintro ⟨t, x⟩
    rw [State.holds, hidle t]
    cases x <;> rfl

theorem no_waiter_of_canceled_waiting : ∃ s, (system (Fin 3) (Fin 2) 2).Reach s ∧
    s.canceled = true ∧ s.arrived 0 = 1 ∧ s.waitList = [] ∧ ∀ p, s.arrived p = s.released p := by
  obtain ⟨s, hs, hcanceled, hidle, harrived⟩ :=
    StepSystem.Reach.exists_of_exec (M := (system (Fin 3) (Fin 2) 2).restrict Undisturbed)
      (P := fun s => s.canceled = true ∧ (∀ t, s.call t = .idle) ∧ s.arrived 0 = 1)
      (s := initial 2) (.start rfl)
      (.await 0 0 :: turns 0 11 ++ .cancel 2 :: turns 2 5) (by decide)
  have hg := hs.reachWhile
  obtain ⟨_, _, h⟩ := no_waiter_of_canceled (by decide) hg
  obtain ⟨hempty, hlet⟩ := h hcanceled hidle
  exact ⟨s, hg.reach, hcanceled, harrived, hempty, hlet⟩

/-- A cancellation drains the waiters between the second test of `m_canceled` of the
last arrival and its release, which then dereferences what the empty list has given it. -/
theorem release_of_drained_waitList : ∃ s s', (system (Fin 3) (Fin 2) 2).Reach s ∧
    s.call 1 = .releaseDequeue (.suspend 1 false false) 2 ∧ s.waitList = [] ∧
    step s (.call 1 .maySuspend false) = some s' ∧ s'.call 1 = .failed := by
  obtain ⟨s, hs, hcall, hempty⟩ :=
    StepSystem.Reach.exists_of_exec (M := system (Fin 3) (Fin 2) 2)
      (P := fun s => s.call 1 = .releaseDequeue (.suspend 1 false false) 2 ∧ s.waitList = [])
      (s := initial 2) (.start rfl)
      (.await 1 1 :: turns 1 3 ++ .await 0 0 :: turns 0 11 ++ turns 1 6 ++ .cancel 2 :: turns 2 7 ++
        turns 1 3)
      (by decide)
  have hstep : step s (.call 1 .maySuspend false) = some (s.go 1 .failed) := by
    simp only [step, hcall, callStep, hempty]
  exact ⟨s, s.go 1 .failed, hs, hcall, hempty, hstep, by simp [State.go]⟩

end Cancellation

end LevelzAsync.AsyncBarrier
