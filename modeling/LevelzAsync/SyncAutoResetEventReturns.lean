import LevelzAsync.SyncAutoResetEventSignals

/-!
# A wait that was signalled returns

While a wait is under way and a `set` has stored `Set` for it, or is about to,
some call can go on. Each step of a call brings the calls in progress closer to
their ends: a notification makes the waiter evaluate its predicate once more,
which the step of the notifying thread pays for.
-/

namespace LevelzAsync.SyncAutoResetEvent

/-- A call in progress goes on, or the time of a `waitFor` is over. -/
def Action.continues {Thread : Type*} : Action Thread → Prop
  | .call _ _ | .tryLockFails _ | .timeout => True
  | .set _ | .trySet _ | .wait _ | .spurious => False

def Call.exchanges : Call → Bool
  | setExchange | trySetExchange => true
  | _ => false

def Call.rank : Call → ℕ
  | setExchange | trySetLock => 80
  | setLock | trySetExchange => 60
  | setNotify | trySetNotify => 40
  | setUnlock | trySetUnlock => 20
  | waitExchange _ => 18
  | waitLock _ => 17
  | waitTest _ => 16
  | waitReacquire _ => 15
  | waitPredicate _ => 14
  | waitBlock _ => 13
  | waitTimedOut => 4
  | waitLastPredicate | waitAssertSet => 3
  | waitAssertPrev _ | waitStore => 2
  | waitClear | waitUnlock => 1
  | idle | aborted => 0

/-- A `set`, or a `trySet` that has the mutex, is about to store `Set`, or one has
stored it since the last wait returned. -/
def Promised {Thread : Type*} (s : State Thread) : Prop :=
  s.signalled = true ∨ ∃ t, (s.call t).exchanges = true

variable {Thread : Type*} [DecidableEq Thread] {waiter t : Thread} {s s' : State Thread} {p : Call}

/-- The waiter may have to evaluate its predicate once more. -/
def wakeRank (waiter : Thread) (s : State Thread) : ℕ :=
  if waiter ∈ s.monitor.waiting then 0 else 10

theorem wakeRank_le (waiter : Thread) (s : State Thread) : wakeRank waiter s ≤ 10 := by
  unfold wakeRank
  split_ifs <;> omega

theorem wakeRank_eq (h : s'.monitor.waiting = s.monitor.waiting) :
    wakeRank waiter s' = wakeRank waiter s := by
  rw [wakeRank, wakeRank, h]

/-- A step of a call that does not end a wait. -/
structure Goes (waiter : Thread) (s s' : State Thread) (t : Thread) (p : Call) : Prop where
  call : s'.call = Function.update s.call t p
  returns : s'.returns = s.returns
  signalled : s.signalled = true → s'.signalled = true
  exchanges : (s.call t).exchanges = true → s'.signalled = true
  waits : (s.call t).waits = true → p.waits = true
  rank : p.rank + wakeRank waiter s' < (s.call t).rank + wakeRank waiter s

theorem Goes.plain (hcall : s'.call = Function.update s.call t p)
    (hreturns : s'.returns = s.returns) (hsignalled : s'.signalled = s.signalled)
    (hwaiting : s'.monitor.waiting = s.monitor.waiting)
    (hexchanges : (s.call t).exchanges = false) (hwaits : (s.call t).waits = true → p.waits = true)
    (hrank : p.rank < (s.call t).rank) : Goes waiter s s' t p where
  call := hcall
  returns := hreturns
  signalled hs := hsignalled.trans hs
  exchanges he := by rw [hexchanges] at he; cases he
  waits := hwaits
  rank := by
    rw [wakeRank_eq hwaiting]
    omega

theorem Goes.exchangeSet (hwaits : (s.call t).waits = false) (hrank : p.rank < (s.call t).rank) :
    Goes waiter s (s.exchangeSet t p) t p where
  call := rfl
  returns := rfl
  signalled _ := rfl
  exchanges _ := rfl
  waits hw := by rw [hwaits] at hw; cases hw
  rank := by
    have : wakeRank waiter (s.exchangeSet t p) = wakeRank waiter s := rfl
    omega

theorem Goes.notify {m : Monitor Thread} (hexchanges : (s.call t).exchanges = false)
    (hwaits : (s.call t).waits = false) (hrank : p.rank + 10 < (s.call t).rank) :
    Goes waiter s (s.goLocked t p m) t p where
  call := rfl
  returns := rfl
  signalled hs := hs
  exchanges he := by rw [hexchanges] at he; cases he
  waits hw := by rw [hwaits] at hw; cases hw
  rank := by
    have := wakeRank_le waiter (s.goLocked t p m)
    omega

theorem Goes.lock {m : Monitor Thread} (hm : s.monitor.lock t = some m)
    (hexchanges : (s.call t).exchanges = false) (hwaits : (s.call t).waits = true → p.waits = true)
    (hrank : p.rank < (s.call t).rank) : Goes waiter s (s.goLocked t p m) t p := by
  obtain ⟨_, rfl⟩ := Monitor.lock_eq hm
  exact .plain rfl rfl rfl rfl hexchanges hwaits hrank

theorem Inv.goes {notified : Thread} (h : Inv waiter s)
    (ha : SyncAutoResetEvent.callStep s t notified (s.call t) = some s') :
    (∃ p, Goes waiter s s' t p) ∨ s.returns < s'.returns := by
  cases hp : s.call t with rw [hp] at ha
  | idle | aborted => cases ha
  | setExchange =>
      cases ha
      refine .inl ⟨_, .exchangeSet (by rw [hp]; rfl) ?_⟩
      rw [hp]
      split_ifs <;> decide
  | trySetExchange =>
      cases ha
      exact .inl ⟨_, .exchangeSet (by rw [hp]; rfl) (by rw [hp]; decide)⟩
  | setLock | waitTimedOut =>
      obtain ⟨m, hm, rfl⟩ := Option.map_eq_some_iff.mp ha
      exact .inl ⟨_, .lock hm (by rw [hp]; rfl) (by rw [hp]; decide) (by rw [hp]; decide)⟩
  | waitLock timed =>
      obtain ⟨m, hm, rfl⟩ := Option.map_eq_some_iff.mp ha
      exact .inl ⟨_, .lock hm (by rw [hp]; rfl) (fun _ => rfl) (by rw [hp]; exact Nat.lt_add_one _)⟩
  | trySetLock =>
      cases ha
      cases hm : s.monitor.lock t with
      | none =>
          exact .inl ⟨_, .plain rfl rfl rfl rfl (by rw [hp]; rfl) (by rw [hp]; nofun)
            (by rw [hp]; decide)⟩
      | some m =>
          exact .inl ⟨_, .lock hm (by rw [hp]; rfl) (by rw [hp]; nofun) (by rw [hp]; decide)⟩
  | setNotify | trySetNotify =>
      obtain ⟨m, hm, rfl⟩ := Option.map_eq_some_iff.mp ha
      exact .inl ⟨_, .notify (by rw [hp]; rfl) (by rw [hp]; rfl) (by rw [hp]; decide)⟩
  | setUnlock | trySetUnlock =>
      cases ha
      exact .inl ⟨_, .plain rfl rfl rfl rfl (by rw [hp]; rfl) (by rw [hp]; nofun)
        (by rw [hp]; decide)⟩
  | waitLastPredicate | waitStore =>
      cases ha
      exact .inl ⟨_, .plain rfl rfl rfl rfl (by rw [hp]; rfl) (fun _ => rfl) (by rw [hp]; decide)⟩
  | waitAssertPrev prevState =>
      cases ha
      refine .inl ⟨_, .plain rfl rfl rfl rfl (by rw [hp]; rfl) (fun _ => ?_) ?_⟩
      · split_ifs <;> rfl
      · rw [hp]
        split_ifs <;> simp [Call.rank]
  | waitExchange timed =>
      cases ha
      split_ifs
      · exact .inl ⟨_, .plain rfl rfl rfl rfl (by rw [hp]; rfl) (fun _ => rfl)
          (by rw [hp]; exact Nat.lt_add_one _)⟩
      · exact .inl ⟨_, .plain rfl rfl rfl rfl (by rw [hp]; rfl) (fun _ => rfl)
          (by rw [hp]; simp [Call.rank])⟩
  | waitTest timed | waitPredicate timed | waitAssertSet =>
      cases ha
      refine .inl ⟨_, .plain rfl rfl rfl rfl (by rw [hp]; rfl) (fun _ => ?_) ?_⟩
      · split_ifs <;> rfl
      · rw [hp]
        split_ifs <;> simp [Call.rank]
  | waitClear | waitUnlock =>
      cases ha
      exact .inr (Nat.lt_succ_self _)
  | waitBlock timed =>
      cases ha
      obtain rfl : t = waiter := h.eq_waiter (by rw [hp]; rfl)
      refine .inl ⟨_, rfl, rfl, id, by rw [hp]; nofun, fun _ => rfl, ?_⟩
      have hempty : s.monitor.waiting = ∅ := h.waiting_eq_empty (by rw [hp]; nofun)
      have hin : t ∈ insert t s.monitor.waiting := Finset.mem_insert_self _ _
      have hafter : wakeRank t (s.goLocked t (.waitReacquire timed) (s.monitor.wait t)) = 0 :=
        if_pos hin
      rw [hp, hafter, wakeRank, hempty, if_neg (Finset.notMem_empty t)]
      simp [Call.rank]
  | waitReacquire timed =>
      obtain ⟨m, hm, rfl⟩ := Option.map_eq_some_iff.mp ha
      obtain ⟨_, hm⟩ := Option.ite_none_left_eq_some.mp hm
      exact .inl ⟨_, .lock hm (by rw [hp]; rfl) (fun _ => rfl) (by rw [hp]; exact Nat.lt_add_one _)⟩

/-- Only a step that stores `Set` ends an exchange under way. -/
theorem Promised.update (h : Promised s) (hcall : s'.call = Function.update s.call t p)
    (hsignalled : s.signalled = true → s'.signalled = true)
    (hexchanges : (s.call t).exchanges = true → s'.signalled = true) : Promised s' := by
  rcases h with hs | ⟨u, hu⟩
  · exact .inl (hsignalled hs)
  · by_cases hut : u = t
    · subst hut
      exact .inl (hexchanges hu)
    · exact .inr ⟨u, by rw [hcall, Function.update_of_ne hut, hu]⟩

theorem Promised.go (h : Promised s) (hc : (s.call t).exchanges = false) (p : Call)
    (m : Monitor Thread) : Promised (s.goLocked t p m) :=
  h.update rfl id fun he => by rw [hc] at he; cases he

/-- A signal stays until a wait returns. -/
theorem Promised.step {a : Action Thread} (h : Promised s) (hinv : Inv waiter s)
    (ha : step waiter s a = some s') : Promised s' ∨ s.returns < s'.returns := by
  cases a with
  | set t | trySet t | wait _ | tryLockFails t | timeout =>
      obtain ⟨hc, ha⟩ := Option.ite_none_right_eq_some.mp ha
      cases ha
      exact .inl (h.go (by rw [hc]; rfl) _ _)
  | call t notified =>
      rcases hinv.goes ha with ⟨p, hg⟩ | hlt
      · exact .inl (h.update hg.call hg.signalled hg.exchanges)
      · exact .inr hlt
  | spurious =>
      cases ha
      exact .inl h

/-- The wait number `n` is under way, and a signal is there for it. -/
structure Due (waiter : Thread) (n : ℕ) (s : State Thread) : Prop where
  inv : Inv waiter s
  promised : Promised s
  waits : (s.call waiter).waits = true
  returns : s.returns = n

section Rank

variable [Fintype Thread]

def rank (waiter : Thread) (s : State Thread) : ℕ := ∑ t, (s.call t).rank + wakeRank waiter s

theorem rank_lt (hcall : s'.call = Function.update s.call t p)
    (h : p.rank + wakeRank waiter s' < (s.call t).rank + wakeRank waiter s) :
    rank waiter s' < rank waiter s := by
  have hsum := sum_update_tally s.call Call.rank t p
  rw [← hcall] at hsum
  unfold rank
  omega

end Rank

theorem Due.goes {n : ℕ} (h : Due waiter n s) (hinv : Inv waiter s') (hg : Goes waiter s s' t p) :
    Due waiter n s' where
  inv := hinv
  promised := h.promised.update hg.call hg.signalled hg.exchanges
  waits := by
    rw [hg.call]
    by_cases hw : waiter = t
    · subst hw
      rw [Function.update_self]
      exact hg.waits h.waits
    · rw [Function.update_of_ne hw]
      exact h.waits
  returns := hg.returns.trans h.returns

theorem Due.step [Fintype Thread] {n : ℕ} {a : Action Thread} (h : Due waiter n s)
    (hgo : a.continues) (ha : step waiter s a = some s') :
    n < s'.returns ∨ Due waiter n s' ∧ rank waiter s' < rank waiter s := by
  have hinv := h.inv.step ha
  have hgoes : ∀ t p, Goes waiter s s' t p → Due waiter n s' ∧ rank waiter s' < rank waiter s :=
    fun t p hg => ⟨h.goes hinv hg, rank_lt hg.call hg.rank⟩
  cases a with
  | set | trySet | wait | spurious => cases hgo
  | call t notified =>
      rcases h.inv.goes ha with ⟨p, hg⟩ | hlt
      · exact .inr (hgoes t p hg)
      · exact .inl (h.returns ▸ hlt)
  | tryLockFails t =>
      obtain ⟨hc, ha⟩ := Option.ite_none_right_eq_some.mp ha
      cases ha
      exact .inr (hgoes t .idle (.plain rfl rfl rfl rfl (by rw [hc]; rfl) (by rw [hc]; nofun)
        (by rw [hc]; decide)))
  | timeout =>
      obtain ⟨hc, ha⟩ := Option.ite_none_right_eq_some.mp ha
      cases ha
      refine .inr (hgoes waiter .waitTimedOut ⟨rfl, rfl, id, by rw [hc]; nofun, fun _ => rfl, ?_⟩)
      have hle := wakeRank_le waiter
        (s.goLocked waiter .waitTimedOut (s.monitor.wake waiter))
      rw [hc]
      change 4 + _ < 15 + _
      omega

/-- A thread that has the mutex can go on. -/
theorem callStep_of_inside (h : (s.call t).inside = true) :
    ∃ notified s', callStep s t notified (s.call t) = some s' := by
  have hnotify : ∃ notified m, s.monitor.notifyOne notified = some m := by
    rcases s.monitor.waiting.eq_empty_or_nonempty with he | ⟨u, hu⟩
    · exact ⟨t, s.monitor, if_pos he⟩
    · exact ⟨u, _, (if_neg (Finset.ne_empty_of_mem hu)).trans (if_pos hu)⟩
  obtain ⟨notified, m, hm⟩ := hnotify
  cases hp : s.call t with rw [hp] at h
  | setNotify | trySetNotify => exact ⟨notified, _, Option.map_eq_some_iff.mpr ⟨m, hm, rfl⟩⟩
  | setUnlock | trySetUnlock | trySetExchange | waitTest _ | waitPredicate _ | waitBlock _
  | waitLastPredicate | waitAssertSet | waitStore | waitUnlock => exact ⟨t, _, rfl⟩
  | idle | setExchange | setLock | trySetLock | waitExchange _ | waitAssertPrev _ | waitClear
  | waitLock _ | waitReacquire _ | waitTimedOut | aborted => cases h

/-- The free mutex can be taken, so the waiter goes on, or the setter that it needs does. -/
theorem Due.next {n : ℕ} (h : Due waiter n s) :
    ∃ a s', Action.continues a ∧ SyncAutoResetEvent.step waiter s a = some s' := by
  suffices ∃ t notified s', callStep s t notified (s.call t) = some s' by
    obtain ⟨t, notified, s', hs'⟩ := this
    exact ⟨.call t notified, s', trivial, hs'⟩
  cases ho : s.monitor.owner with
  | some t => exact ⟨t, callStep_of_inside ((h.inv.guards t).mpr ho)⟩
  | none =>
      have hout : ∀ t, (s.call t).inside ≠ true := fun t ht => by
        rw [(h.inv.guards t).mp ht] at ho
        cases ho
      have hlock : ∀ t, s.monitor.lock t = some { s.monitor with owner := some t } :=
        fun _ => if_pos ho
      have hwaits := h.waits
      have hfits := h.inv.fits
      cases hp : s.call waiter with rw [hp] at hwaits hfits
      | waitExchange _ | waitAssertPrev _ | waitClear => exact ⟨waiter, waiter, _, by rw [hp]; rfl⟩
      | waitLock _ | waitTimedOut =>
          exact ⟨waiter, waiter, _, by rw [hp, callStep, hlock]; rfl⟩
      | waitTest _ | waitPredicate _ | waitBlock _ | waitLastPredicate | waitAssertSet | waitStore
      | waitUnlock => exact absurd (by rw [hp]; rfl) (hout waiter)
      | aborted => exact hfits.elim
      | idle | setExchange | setLock | setNotify | setUnlock | trySetLock | trySetExchange
      | trySetNotify | trySetUnlock => cases hwaits
      | waitReacquire timed =>
          by_cases hw : waiter ∈ s.monitor.waiting
          · have hsetter : ∃ t, s.call t = .setExchange ∨ s.call t = .setLock := by
              rcases h.promised with hs | ⟨t, ht⟩
              · have hset := h.inv.signalled_set (by rw [hp]; nofun) hs
                obtain ⟨t, ht⟩ := h.inv.woken hset (.inr hw)
                refine ⟨t, .inr ?_⟩
                cases hc : s.call t with rw [hc] at ht
                | setNotify | trySetNotify => exact absurd (by rw [hc]; rfl) (hout t)
                | _ => cases ht
              · refine ⟨t, .inl ?_⟩
                cases hc : s.call t with rw [hc] at ht
                | trySetExchange => exact absurd (by rw [hc]; rfl) (hout t)
                | _ => cases ht
            obtain ⟨t, hc | hc⟩ := hsetter
            · exact ⟨t, t, _, by rw [hc]; rfl⟩
            · exact ⟨t, t, _, by rw [hc, callStep, hlock]; rfl⟩
          · exact ⟨waiter, waiter, _, by
              rw [hp, callStep, Monitor.reacquire, if_neg hw, hlock]; rfl⟩

theorem Due.returned [Fintype Thread] {n : ℕ} (h : Due waiter n s) :
    (system waiter).Inevitable Action.continues (fun s' => n < s'.returns) s :=
  StepSystem.inevitable_of_rank (rank waiter) (fun _ h => h.next)
    (fun _ _ _ h hgo ha => h.step hgo ha) h

/-- Nothing that a setter does is lost: the waiter does not stay blocked while `Set`
is stored, what a setter has begun stays until a wait returns and makes it return,
and no assertion fails. -/
theorem auto_reset_event_loses_no_signal [Fintype Thread] (hs : (system waiter).Reach s) :
    (waiter ∈ s.monitor.waiting → s.state = .set → ∃ t, (s.call t).notifies = true) ∧
    (Promised s → ∀ a s', (system waiter).step s a = some s' →
      Promised s' ∨ s.returns < s'.returns) ∧
    (Promised s → (s.call waiter).waits = true →
      (system waiter).Inevitable Action.continues (fun s' => s.returns < s'.returns) s) ∧
    ∀ t, s.call t ≠ .aborted := by
  have h := inv_of_reach hs
  refine ⟨fun hw hset => h.woken hset (.inr hw), fun hp _ _ ha => hp.step h ha, fun hp hw => ?_,
    fun t ht => ?_⟩
  · exact Due.returned ⟨h, hp, hw, rfl⟩
  · have hfits := h.fits
    rw [← h.eq_waiter (by rw [ht]; rfl), ht] at hfits
    exact hfits

/-- A `set` between two waits: the second one finds it. -/
theorem auto_reset_event_loses_no_signal_between :
    ∃ s : State (Fin 2), s.call 0 = .waitExchange false ∧ s.returns = 1 ∧ s.state = .set ∧
      (system 0).Inevitable Action.continues (fun s' => s.returns < s'.returns) s := by
  obtain ⟨s, hr, hcall, hreturns, hset, hsignalled⟩ := StepSystem.Reach.exists_of_exec
    (M := system (0 : Fin 2))
    (P := fun s => s.call 0 = .waitExchange false ∧ s.returns = 1 ∧ s.state = .set ∧
      s.signalled = true) (.start ⟨true, rfl⟩)
    [.wait true, .call 0 0, .call 0 0, .call 0 0, .set 1, .call 1 1, .wait false] (by decide)
  exact ⟨s, hcall, hreturns, hset,
    (auto_reset_event_loses_no_signal hr).2.2.1 (.inl hsignalled) (by rw [hcall]; rfl)⟩

end LevelzAsync.SyncAutoResetEvent
