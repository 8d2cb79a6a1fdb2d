import LevelzAsync.EventWaitInvariant

/-!
# Cancelled waits leave the wait list

A coroutine that is cancelled while it goes to sleep is not left in the wait
list, and coroutines that are asleep are cancelled independently, in all runs
whose steps are in time. Runs whose steps are not in time show both ways to fail.
-/

namespace LevelzAsync.EventWait

variable {Co : Type*} [DecidableEq Co] [Fintype Co] {s : State Co} {c : Co}

/-- A coroutine whose cancellation has returned is in the list no more, and
scheduled if it was in the list and no other `remove` has it in hand. -/
theorem Inv.released (hi : Inv s) (hcancel : (s.co c).cancel = .returned) :
    c ∉ s.waitQueue ∧ ((s.co c).wait = .suspended → (∀ d, (s.co d).cancel.holds c = 0) →
      (s.co c).schedules = 1) := by
  have hc : c ∉ s.waitQueue := fun h => by
    have hreach := hi.reach c h
    rw [Waiter.reaches, hcancel] at hreach
    cases hreach
  refine ⟨hc, fun hwait hheld => ?_⟩
  have htokens := hi.tokens c
  rw [List.count_eq_zero.mpr hc, Finset.sum_eq_zero fun d _ => hheld d, Waiter.releases, hcancel,
    hwait] at htokens
  simpa [CancelPc.isScheduling, WaitPc.isEnqueued] using htokens

/-- A coroutine that nobody has cancelled stays in the list, or in the hands of a
`remove`. -/
theorem Inv.kept (hi : Inv s) (hcancel : (s.co c).cancel = .idle)
    (hwait : (s.co c).wait = .suspended) (hheld : ∀ d, (s.co d).cancel.holds c = 0) :
    c ∈ s.waitQueue ∧ (s.co c).schedules = 0 := by
  have hzero : (s.co c).schedules = 0 := by
    by_contra h
    have := ((hi.ok c).scheduled (Nat.pos_of_ne_zero h)).1
    rw [(hi.ok c).cancelled, hcancel] at this
    cases this
  have htokens := hi.tokens c
  rw [Finset.sum_eq_zero fun d _ => hheld d, Waiter.releases, hcancel, hwait, hzero] at htokens
  refine ⟨List.count_pos_iff.mp ?_, hzero⟩
  simp only [CancelPc.isScheduling, WaitPc.isEnqueued, Bool.toNat_false, Bool.toNat_true] at htokens
  omega

omit [Fintype Co] in
theorem CancelPc.holds_of_done {q : CancelPc Co} (h : q = .idle ∨ q = .returned) (c : Co) :
    q.holds c = 0 := by
  rcases h with rfl | rfl <;> rfl

/-- In every run whose steps are in time, from any coroutines parked and for any
chained-execution allowance: when `await_suspend` and the only `cancel` have
returned, the coroutine is not in the wait list. If it was put there it is
scheduled once, and what it sees when it resumes is its cancellation. -/
theorem cancelled_wait_not_lost {order : List Co} (horder : order.Nodup)
    (hs : (system order).ReachWhile (fun s a => inTime s a = true) s)
    (hone : ∀ d, d ≠ c → (s.co d).cancel = .idle) (hcancel : (s.co c).cancel = .returned) :
    c ∉ s.waitQueue ∧ ((s.co c).wait = .suspended → (s.co c).schedules = 1) ∧
      ∀ e, (s.co c).resume = .resumed e → e = true := by
  obtain ⟨hi, _⟩ := inv_of_reachWhile horder hs
  obtain ⟨hc, hscheduled⟩ := hi.released hcancel
  refine ⟨hc, fun hwait => hscheduled hwait fun d => CancelPc.holds_of_done ?_ c, (hi.ok c).error⟩
  by_cases hd : d = c
  · exact .inr (hd ▸ hcancel)
  · exact .inl (hone d hd)

/-- Coroutine 0 goes to sleep behind coroutine 1 while its cancellation rotates
the list. -/
def parksDuringRemove : List (Action (Fin 2)) :=
  List.replicate 4 (.wait 0 true true) ++ .cancel 0 :: List.replicate 6 (.canceller 0) ++
  .wait 0 true true :: List.replicate 3 (.canceller 0) ++
  .wait 0 true true :: List.replicate 6 (.canceller 0) ++
  List.replicate 2 (.wait 0 true true) ++ List.replicate 3 (.canceller 0)

theorem cancelled_wait_not_lost_during_remove :
    ∃ s : State (Fin 2), (system [1]).Reach s ∧ (s.co 0).wait = .suspended ∧
      0 ∉ s.waitQueue ∧ (s.co 0).schedules = 1 := by
  let M := (system [(1 : Fin 2)]).restrict fun s a => inTime s a = true
  obtain ⟨s, hr, hone, hcancel, hwait⟩ := StepSystem.Reach.exists_of_exec (M := M)
    (P := fun s => (s.co 1).cancel = .idle ∧ (s.co 0).cancel = .returned ∧
      (s.co 0).wait = .suspended)
    (s := initial [1] fun _ => .event) (.start ⟨_, fun _ => .inl rfl, rfl⟩) parksDuringRemove
    (by decide)
  have hothers : ∀ d : Fin 2, d ≠ 0 → (s.co d).cancel = .idle := fun d hd => by
    obtain rfl : d = 1 := by omega
    exact hone
  have h := cancelled_wait_not_lost (by decide) hr.reachWhile hothers hcancel
  exact ⟨s, hr.reachWhile.reach, hwait, h.1, h.2.1 hwait⟩

/-- The coroutine has read that it is not cancelled; it is cancelled while it
still runs, and goes to sleep. -/
def parksAfterCancel : List (Action (Fin 1)) :=
  List.replicate 3 (.wait 0 true true) ++ .cancel 0 :: List.replicate 3 (.canceller 0) ++
  List.replicate 5 (.wait 0 true true)

theorem cancelled_wait_lost :
    ¬∀ s : State (Fin 1), (system []).Reach s → (s.co 0).cancel = .returned →
      (s.co 0).wait = .suspended → 0 ∉ s.waitQueue := by
  intro h
  obtain ⟨s, hr, hcancel, hwait, hqueue⟩ := StepSystem.Reach.exists_of_exec (M := system [])
    (P := fun s => (s.co 0).cancel = .returned ∧ (s.co 0).wait = .suspended ∧ 0 ∈ s.waitQueue)
    (s := initial [] fun _ => .event) (.start ⟨_, fun _ => .inl rfl, rfl⟩) parksAfterCancel
    (by decide)
  exact h s hr hcancel hwait hqueue

/-- In every run whose steps are in time, for any number of coroutines parked in
any order: when all calls of `cancel` that were made have returned, each
cancelled coroutine is out of the list and was scheduled once, and each other
one is in the list. -/
theorem parked_cancellations_independent {order : List Co} (horder : order.Nodup)
    (hs : (system order).ReachWhile (fun s a => inTime s a = true) s)
    (hdone : ∀ c, (s.co c).cancel = .idle ∨ (s.co c).cancel = .returned) :
    ∀ c ∈ order,
      ((s.co c).cancel = .returned → c ∉ s.waitQueue ∧ (s.co c).schedules = 1) ∧
      ((s.co c).cancel = .idle → c ∈ s.waitQueue ∧ (s.co c).schedules = 0) := by
  obtain ⟨hi, hparked⟩ := inv_of_reachWhile horder hs
  intro c hc
  have hheld : ∀ d, (s.co d).cancel.holds c = 0 := fun d => CancelPc.holds_of_done (hdone d) c
  refine ⟨fun hcancel => ?_, fun hcancel => hi.kept hcancel (hparked c hc) hheld⟩
  obtain ⟨hout, hscheduled⟩ := hi.released hcancel
  exact ⟨hout, hscheduled (hparked c hc) hheld⟩

/-- Two of three parked coroutines are cancelled at a time; each `remove` puts
the other one's coroutine back once. -/
def cancelsCross : List (Action (Fin 3)) :=
  .cancel 0 :: .cancel 1 :: List.replicate 10 (.canceller 1) ++ List.replicate 8 (.canceller 0) ++
  .canceller 1 :: List.replicate 4 (.canceller 0) ++ .canceller 1 ::
  List.replicate 10 (.canceller 0) ++ List.replicate 6 (.canceller 1)

theorem parked_cancellations_independent_crossing :
    ∃ s : State (Fin 3), (system [0, 1, 2]).Reach s ∧
      0 ∉ s.waitQueue ∧ (s.co 0).schedules = 1 ∧ 1 ∉ s.waitQueue ∧ (s.co 1).schedules = 1 ∧
      2 ∈ s.waitQueue ∧ (s.co 2).schedules = 0 := by
  let M := (system [(0 : Fin 3), 1, 2]).restrict fun s a => inTime s a = true
  obtain ⟨s, hr, h₀, h₁, h₂⟩ := StepSystem.Reach.exists_of_exec (M := M)
    (P := fun s => (s.co 0).cancel = .returned ∧ (s.co 1).cancel = .returned ∧
      (s.co 2).cancel = .idle)
    (s := initial [0, 1, 2] fun _ => .event) (.start ⟨_, fun _ => .inl rfl, rfl⟩) cancelsCross
    (by decide)
  have hdone : ∀ c, (s.co c).cancel = .idle ∨ (s.co c).cancel = .returned := fun c => by
    match c with
    | 0 => exact .inr h₀
    | 1 => exact .inr h₁
    | 2 => exact .inl h₂
  have h := parked_cancellations_independent (by decide) hr.reachWhile hdone
  obtain ⟨hout₀, hs₀⟩ := (h 0 (by decide)).1 h₀
  obtain ⟨hout₁, hs₁⟩ := (h 1 (by decide)).1 h₁
  exact ⟨s, hr.reachWhile.reach, hout₀, hs₀, hout₁, hs₁, (h 2 (by decide)).2 h₂⟩

/-- The `remove` of coroutine 1 holds coroutine 0 while the `remove` of
coroutine 0 rotates what is left of the list. -/
def cancelHoldsOther : List (Action (Fin 2)) :=
  .cancel 0 :: .cancel 1 :: List.replicate 10 (.canceller 1) ++
  List.replicate 22 (.canceller 0) ++ List.replicate 8 (.canceller 1)

theorem parked_cancellation_missed :
    ¬∀ s : State (Fin 2), (system [0, 1]).Reach s →
      (∀ c, (s.co c).cancel = .idle ∨ (s.co c).cancel = .returned) →
      ∀ c ∈ [(0 : Fin 2), 1],
        ((s.co c).cancel = .returned → c ∉ s.waitQueue ∧ (s.co c).schedules = 1) ∧
        ((s.co c).cancel = .idle → c ∈ s.waitQueue) := by
  intro h
  obtain ⟨s, hr, h₀, h₁, hqueue⟩ := StepSystem.Reach.exists_of_exec (M := system [0, 1])
    (P := fun s => (s.co 0).cancel = .returned ∧ (s.co 1).cancel = .returned ∧ 0 ∈ s.waitQueue)
    (s := initial [0, 1] fun _ => .event) (.start ⟨_, fun _ => .inl rfl, rfl⟩) cancelHoldsOther
    (by decide)
  have hdone : ∀ c, (s.co c).cancel = .idle ∨ (s.co c).cancel = .returned := fun c => by
    match c with
    | 0 => exact .inr h₀
    | 1 => exact .inr h₁
  exact ((h s hr hdone 0 (by decide)).1 h₀).1 hqueue

end LevelzAsync.EventWait
