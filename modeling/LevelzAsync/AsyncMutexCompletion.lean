import LevelzAsync.AsyncMutexTurns

/-!
# Everybody comes out of the mutex

An owner is on its way to its `unlock` or in it, or is just being scheduled, and a waiter
that nobody has in hand is in the wait list; so when all calls and all coroutines have come
to rest, nobody waits any more. As all of them come to rest, everybody leaves.
-/

namespace LevelzAsync.AsyncMutex

variable {Thread Co : Type*}

/-- The owner that the call has to do with: it was just made the owner or is unlocking. -/
def Call.serves : Call Co → Option Co
  | unlockLoad c => some c
  | p => p.owns

variable [DecidableEq Co] [DecidableEq Thread] {s s' : State Thread Co} {t : Thread} {c : Co}
  {p q : Call Co}

section Owners

/-- An owner is on the way to its `unlock`, or a call has to do with it. -/
def Served (s : State Thread Co) : Prop :=
  ∀ c, s.owner = some c → (s.co c).comesToUnlock = true ∨ ∃ t, (s.call t).serves = some c

/-- What has become of the owner `c` after a step of a call: the call has to do with it, it is
on its way to its `unlock`, or it was the owner and is no concern of the call. -/
def OwnerAfter (s s' : State Thread Co) (t : Thread) (q : Call Co) (c : Co) : Prop :=
  (s'.call t).serves = some c ∨ (s'.co c).comesToUnlock = true ∨
    s.owner = some c ∧ q.serves ≠ some c

theorem OwnerAfter.go (hcall : s'.call = Function.update s.call t p) (howner : s'.owner = s.owner)
    (hq : q.serves = none ∨ p.serves = q.serves) (ho : s'.owner = some c) :
    OwnerAfter s s' t q c := by
  by_cases hserves : q.serves = some c
  · refine .inl ?_
    rw [hcall, Function.update_self]
    rcases hq with hq | hq
    · rw [hq] at hserves
      cases hserves
    · exact hq.trans hserves
  · exact .inr (.inr ⟨howner ▸ ho, hserves⟩)

omit [DecidableEq Co] in
theorem OwnerAfter.made {next : Co} (hcall : s'.call = Function.update s.call t p)
    (howner : s'.owner = some next) (hp : p.serves = some next) (ho : s'.owner = some c) :
    OwnerAfter s s' t q c := by
  refine .inl ?_
  rw [hcall, Function.update_self, hp, ← howner, ho]

omit [DecidableEq Thread] in
theorem OwnerAfter.scheduled {next : Co} (howner : s'.owner = s.owner)
    (hco : s'.co next = .resumeCancelled) (hq : q.serves = some next) (ho : s'.owner = some c) :
    OwnerAfter s s' t q c := by
  by_cases hc : next = c
  · subst hc
    exact .inr (.inl (by rw [hco]; rfl))
  · refine .inr (.inr ⟨howner ▸ ho, ?_⟩)
    rw [hq]
    exact fun he => hc (Option.some.inj he)

theorem OwnerAfter.returnLock {s₀ : State Thread Co} {caller : Caller Co}
    (hcall : s₀.call = s.call) (howner : s₀.owner = s.owner) (hq : q.serves = none)
    (ho : (s₀.returnLock t caller).owner = some c) :
    OwnerAfter s (s₀.returnLock t caller) t q c := by
  have hgo : ∀ p, (s₀.goCall t p).call = Function.update s.call t p := fun p => by
    rw [← hcall]
    rfl
  cases caller with
  | awaiter | unlock => exact .go (hgo _) howner (.inl hq) ho
  | remove c removed =>
      cases removed <;> exact .go (hgo _) howner (.inl hq) ho

omit [DecidableEq Thread] in
theorem schedule_co_of_waiting {next : Co} (h : s.co next = .waiting) :
    (s.schedule next).co next = .resumeCancelled := by
  change (if s.co next = .waiting then Function.update s.co next .resumeCancelled
    else s.co) next = _
  rw [if_pos h, Function.update_self]

variable [Fintype Thread]

theorem Inv.ownerAfter {spurious : Bool} {bound : ℕ} (hi : Inv s)
    (h : callStep s t spurious bound (s.call t) = some s') (ho : s'.owner = some c) :
    OwnerAfter s s' t (s.call t) c := by
  cases hp : s.call t with rw [hp] at h
  | idle => cases h
  | lockLoad next caller =>
      cases h
      split_ifs at ho ⊢ <;> exact .go rfl rfl (.inl rfl) ho
  | lockEnqueue next caller =>
      cases h
      exact .go rfl rfl (.inl rfl) ho
  | lockReload caller =>
      cases h
      split_ifs at ho ⊢
      · exact .go rfl rfl (.inl rfl) ho
      · exact .returnLock rfl rfl rfl ho
  | lockDequeue caller =>
      cases hlist : s.waitList with
      | cons next rest =>
          simp only [AsyncMutex.callStep, hlist] at h
          cases h
          exact .go rfl rfl (.inl rfl) ho
      | nil =>
          simp only [AsyncMutex.callStep, hlist] at h
          cases h
          exact .returnLock rfl rfl rfl ho
  | lockCas next caller =>
      cases h
      split_ifs at ho ⊢
      · exact .go rfl rfl (.inl rfl) ho
      · exact .made rfl rfl rfl ho
      · exact .go rfl rfl (.inl rfl) ho
  | lockSchedule next caller =>
      have hnext : s.co next = .waiting := hi.waiting_of hp List.mem_cons_self
      have hco := schedule_co_of_waiting hnext
      cases caller with
      | awaiter =>
          cases h
          exact .scheduled rfl hco rfl ho
      | remove d removed =>
          cases h
          cases removed <;> exact .scheduled rfl hco rfl ho
      | unlock u =>
          have hu : s.co u = .unlocking := hi.unlocking_of hp (List.mem_singleton_self u)
          have hne : next ≠ u := by
            rintro rfl
            cases hnext.symm.trans hu
          cases h
          exact .scheduled rfl ((Function.update_of_ne hne ..).trans hco) rfl ho
  | handSchedule u next =>
      have hnext : s.co next = .waiting := hi.waiting_of hp (List.mem_singleton_self next)
      have hu : s.co u = .unlocking := hi.unlocking_of hp (List.mem_singleton_self u)
      have hne : next ≠ u := by
        rintro rfl
        cases hnext.symm.trans hu
      cases h
      exact .scheduled rfl
        ((Function.update_of_ne hne ..).trans (schedule_co_of_waiting hnext)) rfl ho
  | unlockLoad u =>
      cases h
      by_cases hu : s.owner = some u
      · rw [if_pos hu] at ho ⊢
        exact .go rfl rfl (.inr rfl) ho
      · rw [if_neg hu] at ho ⊢
        have howner : s.owner = some c := ho
        exact .inr (.inr ⟨howner, fun he => hu (howner.trans he.symm)⟩)
  | unlockStranger u =>
      cases h
      split_ifs at ho ⊢ <;> exact .go rfl rfl (.inl rfl) ho
  | unlockMarkStranger | cancelMark | removeCount | removeEnqueue | removeSchedule =>
      cases h
      exact .go rfl rfl (.inl rfl) ho
  | unlockCancelled u =>
      cases h
      split_ifs at ho ⊢ <;> exact .go rfl rfl (.inr rfl) ho
  | unlockMark u =>
      cases h
      exact .go rfl rfl (.inr rfl) ho
  | unlockRelease | unlockClear =>
      cases h
      cases ho
  | unlockDequeue u =>
      cases hlist : s.waitList with
      | cons next rest | nil =>
          simp only [AsyncMutex.callStep, hlist] at h
          cases h
          exact .go rfl rfl (.inr rfl) ho
  | unlockDequeueAgain u =>
      cases hlist : s.waitList with
      | cons next rest | nil =>
          simp only [AsyncMutex.callStep, hlist] at h
          cases h
          exact .go rfl rfl (.inl rfl) ho
  | handOff u next =>
      cases h
      exact .made rfl rfl rfl ho
  | drainDequeue drain =>
      cases hlist : s.waitList with
      | cons next rest =>
          simp only [AsyncMutex.callStep, hlist] at h
          cases h
          cases drain <;> exact .go rfl rfl (.inr rfl) ho
      | nil =>
          simp only [AsyncMutex.callStep, hlist] at h
          cases drain with
          | owned u =>
              cases h
              exact .go rfl rfl (.inr rfl) ho
          | released | cancel =>
              cases h
              exact .go rfl rfl (.inl rfl) ho
  | drainMark drain next | drainSchedule drain next =>
      cases h
      cases drain <;> exact .go rfl rfl (.inr rfl) ho
  | removeDequeue d left =>
      cases left with
      | zero =>
          cases h
          exact .go rfl rfl (.inl rfl) ho
      | succ left =>
          cases hlist : s.waitList with
          | nil =>
              simp only [AsyncMutex.callStep, hlist] at h
              cases h
              exact .go rfl rfl (.inl rfl) ho
          | cons node rest =>
              simp only [AsyncMutex.callStep, hlist] at h
              cases h
              exact .go rfl rfl (.inl rfl) ho
  | removeCheckOwner d removed =>
      cases h
      cases removed <;> split_ifs at ho ⊢ <;> exact .go rfl rfl (.inl rfl) ho
  | removeDequeueNext d removed =>
      cases hlist : s.waitList with
      | cons next rest =>
          simp only [AsyncMutex.callStep, hlist] at h
          cases h
          exact .go rfl rfl (.inl rfl) ho
      | nil =>
          simp only [AsyncMutex.callStep, hlist] at h
          cases h
          cases removed <;> exact .go rfl rfl (.inl rfl) ho

theorem Served.call {spurious : Bool} {bound : ℕ} (h : Served s) (hi : Inv s)
    (hs : callStep s t spurious bound (s.call t) = some s') : Served s' := by
  obtain ⟨p, hm⟩ := hi.callMoves hs
  intro c ho
  rcases hi.ownerAfter hs ho with hserves | hcomes | ⟨hold, hne⟩
  · exact .inr ⟨t, hserves⟩
  · exact .inl hcomes
  · refine (h c hold).imp (fun hcomes => ?_) fun ⟨u, hu⟩ => ⟨u, ?_⟩
    · cases hm.co c with
      | same hco _ =>
          rw [hco]
          exact hcomes
      | scheduled hw _ _ _ =>
          rw [hw] at hcomes
          cases hcomes
      | unlocked hu _ _ =>
          rw [hu] at hcomes
          cases hcomes
    · have hut : u ≠ t := by
        rintro rfl
        exact hne hu
      rw [hm.call, Function.update_of_ne hut]
      exact hu

omit [DecidableEq Thread] [Fintype Thread] in
theorem Served.advance {spurious : Bool} {r : CoPc} (h : Served s)
    (hr : Advances s s' c spurious r) : Served s' := by
  intro d ho
  have hself : s'.co c = r := by rw [hr.co, Function.update_self]
  rcases hr.owner with he | ⟨_, he, _, hcomes⟩
  · rw [hr.call]
    refine (h d (he ▸ ho)).imp_left fun hcomes => ?_
    by_cases hd : d = c
    · subst hd
      rw [hself]
      exact hr.comes hcomes
    · rw [hr.co, Function.update_of_ne hd]
      exact hcomes
  · obtain rfl : c = d := Option.some.inj (he.symm.trans ho)
    exact .inl (by rw [hself, hcomes])

omit [Fintype Thread] [DecidableEq Co] in
theorem Served.enter (h : Served s) (hidle : s.call t = .idle)
    (hcall : s'.call = Function.update s.call t p) (howner : s'.owner = s.owner)
    (hco : ∀ c, (s.co c).comesToUnlock = true →
      (s'.co c).comesToUnlock = true ∨ p.serves = some c) : Served s' := by
  intro c ho
  rcases h c (howner ▸ ho) with hcomes | ⟨u, hu⟩
  · refine (hco c hcomes).imp_right fun hserves => ⟨t, ?_⟩
    rw [hcall, Function.update_self]
    exact hserves
  · have hut : u ≠ t := by
      rintro rfl
      rw [hidle] at hu
      cases hu
    exact .inr ⟨u, by rw [hcall, Function.update_of_ne hut]; exact hu⟩

theorem Served.step {a : Action Thread Co} (h : Served s) (hi : Inv s)
    (hs : step s a = some s') : Served s' := by
  cases a with
  | await c =>
      obtain ⟨hc, he⟩ := Option.ite_none_right_eq_some.mp hs
      cases he
      intro d ho
      refine (h d ho).imp_left fun hcomes => ?_
      have hd : d ≠ c := by
        rintro rfl
        rw [hc] at hcomes
        cases hcomes
      change (Function.update s.co c _ d).comesToUnlock = true
      rw [Function.update_of_ne hd]
      exact hcomes
  | co c mayChain spurious shutdown =>
      obtain ⟨r, hr⟩ := advances_of_coStep hs
      exact h.advance hr
  | lock c t =>
      obtain ⟨⟨hc, ht⟩, he⟩ := Option.ite_none_right_eq_some.mp hs
      cases he
      refine h.enter ht rfl rfl fun d hcomes => .inl ?_
      have hd : d ≠ c := by
        rintro rfl
        rw [hc] at hcomes
        cases hcomes
      change (Function.update s.co c _ d).comesToUnlock = true
      rw [Function.update_of_ne hd]
      exact hcomes
  | unlock c t =>
      obtain ⟨⟨_, ht⟩, he⟩ := Option.ite_none_right_eq_some.mp hs
      cases he
      refine h.enter ht rfl rfl fun d hcomes => ?_
      by_cases hd : d = c
      · exact .inr (by rw [hd]; rfl)
      · refine .inl ?_
        change (Function.update s.co c _ d).comesToUnlock = true
        rw [Function.update_of_ne hd]
        exact hcomes
  | setCancelled | setAbandoned =>
      cases hs
      exact h
  | cancel t =>
      obtain ⟨ht, he⟩ := Option.ite_none_right_eq_some.mp hs
      cases he
      exact h.enter ht rfl rfl fun _ hcomes => .inl hcomes
  | remove c t =>
      obtain ⟨⟨_, ht⟩, he⟩ := Option.ite_none_right_eq_some.mp hs
      cases he
      exact h.enter ht rfl rfl fun _ hcomes => .inl hcomes
  | call t spurious bound => exact h.call hi hs

theorem served_of_reach (hs : (system Thread Co).Reach s) : Inv s ∧ Served s := by
  refine StepSystem.Reach.invariant (I := fun s => Inv s ∧ Served s) (fun s h => ?_)
    (fun s a s' h ha => ⟨h.1.step ha, h.2.step h.1 ha⟩) hs
  obtain ⟨coCancelled, coAbandoned, rfl⟩ := h
  exact ⟨inv_initial coCancelled coAbandoned, nofun⟩

end Owners

section Completion

/-- Nobody holds the mutex or waits for it, and no call is in flight. -/
def State.isLeft (s : State Thread Co) : Prop :=
  (∀ t, s.call t = .idle) ∧ (∀ c, s.co c = .outside) ∧ s.owner = none ∧ s.waitList = []

omit [DecidableEq Thread] in
theorem coStep_isSome {p : CoPc} (hp : s.co c = p) (ho : p ≠ .outside) (hl : p ≠ .callLock)
    (hw : p ≠ .waiting) (hh : p ≠ .holding) (ht : p ≠ .throwing) (hu : p ≠ .unlocking) :
    ∃ s', coStep s c true false false p = some s' := by
  cases p with
  | outside => exact absurd rfl ho
  | callLock => exact absurd rfl hl
  | waiting => exact absurd rfl hw
  | holding => exact absurd rfl hh
  | throwing => exact absurd rfl ht
  | unlocking => exact absurd rfl hu
  | tryCas =>
      by_cases hn : s.owner = none
      · exact ⟨_, if_pos hn⟩
      · exact ⟨_, if_neg hn⟩
  | _ => exact ⟨_, rfl⟩

variable [Fintype Thread]

omit [DecidableEq Thread] in
/-- At rest nobody waits for a mutex that has no owner on its way to `unlock`. -/
theorem Inv.isLeft (hi : Inv s) (hserved : Served s) (hidle : ∀ t, s.call t = .idle)
    (hco : ∀ c, s.co c = .outside ∨ s.co c = .waiting) : s.isLeft := by
  have howner : s.owner = none := by
    by_contra hne
    obtain ⟨c, hc⟩ := Option.ne_none_iff_exists'.mp hne
    rcases hserved c hc with hcomes | ⟨t, ht⟩
    · rcases hco c with he | he <;> rw [he] at hcomes <;> cases hcomes
    · rw [hidle t] at ht
      cases ht
  have hlist : s.waitList = [] := by
    by_contra hne
    obtain ⟨t, ht⟩ := hi.responsible howner hne
    rw [hidle t] at ht
    cases ht
  refine ⟨hidle, fun c => (hco c).resolve_right fun hw => ?_, howner, hlist⟩
  have hcustody := hi.custody c
  simp only [hidle, hlist, Call.held_idle, List.count_nil, Finset.sum_const_zero] at hcustody
  rw [State.waits, if_pos hw] at hcustody
  cases hcustody

theorem Inv.exists_step [Nonempty Thread] (hi : Inv s) (hserved : Served s) (hnot : ¬s.isLeft) :
    ∃ a s', a.goesOn ∧ AsyncMutex.step s a = some s' := by
  by_cases hidle : ∀ t, s.call t = .idle
  · obtain ⟨t⟩ := ‹Nonempty Thread›
    obtain ⟨c, hc⟩ : ∃ c, ¬(s.co c = .outside ∨ s.co c = .waiting) :=
      not_forall.mp fun hco => hnot (hi.isLeft hserved hidle hco)
    obtain ⟨ho, hw⟩ := not_or.mp hc
    by_cases hl : s.co c = .callLock
    · exact ⟨.lock c t, _, trivial, if_pos ⟨hl, hidle t⟩⟩
    by_cases hh : s.co c = .holding ∨ s.co c = .throwing
    · exact ⟨.unlock c t, _, trivial, if_pos ⟨hh, hidle t⟩⟩
    obtain ⟨hholding, hthrowing⟩ := not_or.mp hh
    have hu : s.co c ≠ .unlocking := by
      intro hu
      have hunlocks := hi.unlocks c
      simp only [hidle, Call.unlocks_idle, List.count_nil, Finset.sum_const_zero] at hunlocks
      rw [State.unlocks, if_pos hu] at hunlocks
      cases hunlocks
    obtain ⟨s', hs'⟩ := coStep_isSome rfl ho hl hw hholding hthrowing hu
    exact ⟨.co c true false false, s', rfl, hs'⟩
  · obtain ⟨t, ht⟩ := not_forall.mp hidle
    have hstep : ∃ s', AsyncMutex.callStep s t false 0 (s.call t) = some s' := by
      cases hp : s.call t with
      | idle => exact absurd hp ht
      | _ => exact ⟨_, rfl⟩
    obtain ⟨s', hs'⟩ := hstep
    exact ⟨.call t false 0, s', ⟨rfl, Nat.two_pow_pos 64⟩, hs'⟩

/-- From every reachable state, with whatever cancellations and removals under way: if nobody
begins to await and nobody else cancels, then all coroutines that await the mutex come to
hold it or to throw, unlock it and leave, in whatever order the steps are taken. -/
theorem everybody_leaves [Fintype Co] [Nonempty Thread] (hs : (system Thread Co).Reach s) :
    (system Thread Co).Inevitable Action.goesOn State.isLeft s := by
  refine StepSystem.inevitable_at_rest (R := State.isLeft) State.rank (fun s hr hnot => ?_)
    (fun s a s' hr ha hstep => ?_) (fun _ _ hleft => hleft) hs
  · obtain ⟨hi, hserved⟩ := served_of_reach hr
    exact hi.exists_step hserved hnot
  · exact ⟨hr.step hstep, rank_lt_of_step (inv_of_reach hr) ha hstep⟩

/-- One coroutine holds the mutex, one waits in the list and one is about to be put there. -/
theorem everybody_leaves_waiting : ∃ s : State (Fin 3) (Fin 3),
    s.co 0 = .holding ∧ s.waitList = [1] ∧ s.call 2 = .lockEnqueue 2 .awaiter ∧
      (system (Fin 3) (Fin 3)).Inevitable Action.goesOn State.isLeft s := by
  obtain ⟨s, hr, h₀, h₁, h₂⟩ := StepSystem.Reach.exists_of_exec (M := system (Fin 3) (Fin 3))
    (P := fun s => s.co 0 = .holding ∧ s.waitList = [1] ∧ s.call 2 = .lockEnqueue 2 .awaiter)
    (s := initial (fun _ => false) fun _ => false) (.start ⟨_, _, rfl⟩)
    (.await 0 :: List.replicate 10 (.co 0 true false false) ++
      (.await 1 :: List.replicate 7 (.co 1 true false false)) ++
      (.lock 1 1 :: List.replicate 3 (.call 1 false 0)) ++
      (.await 2 :: List.replicate 7 (.co 2 true false false)) ++
      [.lock 2 2, .call 2 false 0]) (by decide)
  exact ⟨s, h₀, h₁, h₂, everybody_leaves hr⟩

end Completion

end LevelzAsync.AsyncMutex
