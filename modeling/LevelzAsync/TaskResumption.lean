import LevelzAsync.TaskAwait

/-!
# Who may resume the consumer of a task

The consumer that suspended in `await_suspend` has one token: it is in
`m_continuation`, or with the final awaiter or the canceller that took it from
there by an exchange. `yield_value` copies `m_continuation` and leaves it; as
long as no canceller takes the token that was copied, the consumer is resumed
once.
-/

namespace LevelzAsync.TaskAwait

open CoroutineStatus

/-- The statuses from which a task can get to be awaited. -/
def isStartable : CoroutineStatus → Bool
  | notStarted | yielded | yieldedSuspended => true
  | _ => false

def TaskPc.copies : TaskPc → Bool
  | .readyYield copy | .suspendRead copy | .suspendYield copy _ => copy
  | .resumeFromYield _ => true
  | _ => false

def TaskPc.carries : TaskPc → Bool
  | .complete copy | .readyFinal copy | .suspendFinal copy => copy
  | .resumeFromFinal _ => true
  | _ => false

def TaskPc.isParked : TaskPc → Bool
  | .notStarted | .yielded => true
  | _ => false

def TaskPc.isSettled : TaskPc → Bool
  | .finished => true
  | p => p.isParked

def TaskPc.hasReturned : TaskPc → Bool
  | .exchangeContinuation | .complete _ | .readyFinal _ | .suspendFinal _ | .resumeFromFinal _
  | .finished => true
  | _ => false

def CancelPc.carries : CancelPc → Bool
  | .schedule _ => true
  | _ => false

def CancelPc.hasMarked : CancelPc → Bool
  | .idle | .mark => false
  | _ => true

namespace ConsumerPc

def isAwaiting : ConsumerPc → Bool
  | ready | readyDone | suspendRead | suspend _ | taskStatus | taskDone | markTask _
  | storeContinuation | setMaybeBlocked => true
  | _ => false

def hasParked : ConsumerPc → Bool
  | markTask _ | storeContinuation | setMaybeBlocked => true
  | _ => false

def isRegistered : ConsumerPc → Bool
  | setMaybeBlocked | suspended => true
  | _ => false

def isUnresumed : ConsumerPc → Bool
  | taskStatus | taskDone | markTask _ | storeContinuation | setMaybeBlocked | suspended => true
  | _ => false

end ConsumerPc

structure Inv (s : State) : Prop where
  token : s.consumer.isRegistered = true →
    s.continuation.toNat + s.task.carries.toNat + s.canceller.carries.toNat = 1
  taken : s.consumer.isRegistered = false → s.task.carries = false ∧ s.canceller.carries = false
  stale : s.consumer.isRegistered = false → s.continuation = true →
    s.consumer = .clearContinuation ∧ s.task.isSettled = true ∧ s.launching = false
  copies : s.task.copies = true → s.consumer = .suspended ∧ s.continuation = true
  settled : s.task.isSettled = false ∨ s.launching = true →
    s.consumer = .suspended ∨ s.cancelled = true ∧ s.consumer.isAwaiting = false
  launching : s.launching = true → s.task.isParked = true
  parked : s.consumer.hasParked = true → s.task.isParked = true
  blocked : s.maybeBlocked = true → s.consumer.isAwaiting = false
  carried : s.canceller.carries = true ∨ (∃ found, s.canceller = .exchange found) →
    s.consumer.isAwaiting = false
  cancelled : s.canceller.hasMarked = true → s.cancelled = true
  returned : s.task.hasReturned = true → isStartable s.taskStatus = false
  unresumed : s.consumer.isUnresumed = true → s.resumptions = 0
  resumptions : s.resumptions ≤ 1

theorem isStartable_returned {isFinalAwaiter : Bool} {current status : CoroutineStatus}
    (h : setStatus isFinalAwaiter current returned = some status) : isStartable status = false := by
  cases current <;> simp only [setStatus, reduceCtorEq, Option.some.injEq] at h <;> rw [← h] <;> rfl

theorem isStartable_setStatus {isFinalAwaiter : Bool} {current requested status : CoroutineStatus}
    (hcurrent : isStartable current = false) (hrequested : requested ≠ yielded)
    (h : setStatus isFinalAwaiter current requested = some status) :
    isStartable status = false := by
  cases current <;> simp only [isStartable, reduceCtorEq] at hcurrent <;>
    cases requested <;>
    simp only [setStatus, reduceCtorEq, Option.some.injEq, ne_eq, not_true_eq_false] at h hrequested
  all_goals
    rw [← h]
    first | rfl | split <;> rfl

section Steps

variable {s s' : State} {status : CoroutineStatus}
  {awaiterListed taskCancelled completionPending allowed taskAllowed assertFailed aborted : Bool}

theorem Inv.forget (hi : Inv s) :
    Inv { s with
      status := status, awaiterListed := awaiterListed, taskCancelled := taskCancelled
      completionPending := completionPending, allowed := allowed, taskAllowed := taskAllowed
      assertFailed := assertFailed, aborted := aborted } where
  token := hi.token
  taken := hi.taken
  stale := hi.stale
  copies := hi.copies
  settled := hi.settled
  launching := hi.launching
  parked := hi.parked
  blocked := hi.blocked
  carried := hi.carried
  cancelled := hi.cancelled
  returned := hi.returned
  unresumed := hi.unresumed
  resumptions := hi.resumptions

theorem Inv.setStatus (hi : Inv s) {next : CoroutineStatus → State → State}
    (hnext : ∀ prevStatus newStatus, Inv (next prevStatus { s with status := newStatus })) :
    Inv (s.setStatus status next) := by
  unfold State.setStatus
  split
  · exact hnext _ _
  · exact hi.forget

theorem Inv.setTaskStatus (hi : Inv s) {isFinalAwaiter : Bool}
    {next : CoroutineStatus → State → State}
    (hnext : ∀ newStatus, CoroutineStatus.setStatus isFinalAwaiter s.taskStatus status =
      some newStatus → Inv (next s.taskStatus { s with taskStatus := newStatus })) :
    Inv (s.setTaskStatus isFinalAwaiter status next) := by
  unfold State.setTaskStatus
  split
  next h => exact hnext _ h
  next => exact hi.forget

theorem Inv.replaceTaskStatus (hi : Inv s)
    (h : s.task.hasReturned = true → isStartable status = false) :
    Inv { s with taskStatus := status } :=
  ⟨hi.token, hi.taken, hi.stale, hi.copies, hi.settled, hi.launching, hi.parked, hi.blocked,
    hi.carried, hi.cancelled, h, hi.unresumed, hi.resumptions⟩

/-- A consumer that is not registered goes on without being registered. -/
theorem Inv.setConsumer (hi : Inv s) {p : ConsumerPc} {n : ℕ}
    (hold : s.consumer.isRegistered = false) (hclear : s.continuation = false)
    (hp : p.isRegistered = false)
    (hawaiting : p.isAwaiting = true → s.consumer.isAwaiting = true)
    (hparked : p.hasParked = true → s.task.isParked = true)
    (hunresumed : p.isUnresumed = true → n = 0) (hn : n ≤ 1) :
    Inv { s with
      status := status, awaiterListed := awaiterListed, consumer := p, resumptions := n
      allowed := allowed, taskAllowed := taskAllowed, assertFailed := assertFailed } := by
  have hstay : s.consumer.isAwaiting = false → p.isAwaiting = false := fun h => by
    by_contra hne
    rw [hawaiting (by simpa using hne)] at h
    cases h
  have hne : s.consumer ≠ .suspended := fun h => by
    rw [h] at hold
    cases hold
  refine
    { token := fun h => ?_
      taken := fun _ => hi.taken hold
      stale := fun _ h => ?_
      copies := fun h => absurd (hi.copies h).1 hne
      settled := fun h => .inr (((hi.settled h).resolve_left hne).imp_right hstay)
      launching := hi.launching
      parked := hparked
      blocked := fun h => hstay (hi.blocked h)
      carried := fun h => hstay (hi.carried h)
      cancelled := hi.cancelled
      returned := hi.returned
      unresumed := hunresumed
      resumptions := hn }
  · rw [hp] at h
    cases h
  · rw [hclear] at h
    cases h

theorem Inv.continuation_eq (hi : Inv s) (hold : s.consumer.isRegistered = false)
    (hclear : s.consumer ≠ .clearContinuation) : s.continuation = false := by
  by_contra h
  exact hclear (hi.stale hold (by simpa using h)).1

theorem Inv.goConsumer (hi : Inv s) {c p : ConsumerPc} (hc : s.consumer = c)
    (hold : c.isRegistered = false) (hclear : c ≠ .clearContinuation)
    (hp : p.isRegistered = false)
    (hawaiting : p.isAwaiting = true → c.isAwaiting = true)
    (hparked : p.hasParked = true → s.task.isParked = true)
    (hunresumed : p.isUnresumed = true → c.isUnresumed = true) :
    Inv { s with
      status := status, awaiterListed := awaiterListed, consumer := p
      allowed := allowed, assertFailed := assertFailed } := by
  subst hc
  exact hi.setConsumer hold (hi.continuation_eq hold hclear) hp hawaiting hparked
    (fun h => hi.unresumed (hunresumed h)) hi.resumptions

/-- A consumer that has not registered is not served by anybody. -/
theorem Inv.idle_of_awaiting (hi : Inv s) (hc : s.consumer.isAwaiting = true) :
    s.task.isSettled = true ∧ s.launching = false ∧ s.maybeBlocked = false := by
  have hserved : ¬(s.task.isSettled = false ∨ s.launching = true) := fun h => by
    rcases hi.settled h with h | ⟨_, h⟩ <;> rw [h] at hc <;> cases hc
  have hblocked : s.maybeBlocked ≠ true := fun h => by
    rw [hi.blocked h] at hc
    cases hc
  simp only [not_or, Bool.not_eq_true, Bool.not_eq_false] at hserved hblocked
  exact ⟨hserved.1, hserved.2, hblocked⟩

theorem TaskPc.of_isSettled {p : TaskPc} (h : p.isSettled = true) :
    p.carries = false ∧ p.copies = false := by
  cases p <;> simp_all [isSettled, isParked, carries, copies]

theorem TaskPc.isSettled_of_isParked {p : TaskPc} (h : p.isParked = true) :
    p.isSettled = true := by
  cases p <;> simp_all [isSettled, isParked]

/-- A task found startable by a consumer on its way to suspension is parked. -/
theorem Inv.isParked_of_startable (hi : Inv s) (hc : s.consumer.isAwaiting = true)
    (hs : isStartable s.taskStatus = true) : s.task.isParked = true := by
  have hsettled := (hi.idle_of_awaiting hc).1
  have hreturned := hi.returned
  cases hp : s.task <;> simp_all [TaskPc.isSettled, TaskPc.isParked, TaskPc.hasReturned]

theorem Inv.storeContinuation (hi : Inv s) (hc : s.consumer = .storeContinuation) :
    Inv { s with continuation := true, consumer := .setMaybeBlocked } := by
  have hparked := hi.parked (by rw [hc]; rfl)
  obtain ⟨hsettled, hlaunching, hblocked⟩ := hi.idle_of_awaiting (by rw [hc]; rfl)
  obtain ⟨hcarries, hcopies⟩ := TaskPc.of_isSettled hsettled
  have htaken := hi.taken (by rw [hc]; rfl)
  exact
    { token := fun _ => by simp [hcarries, htaken.2]
      taken := nofun
      stale := nofun
      copies := fun h => by simp [hcopies] at h
      settled := fun h => by simp [hsettled, hlaunching] at h
      launching := hi.launching
      parked := fun _ => hparked
      blocked := fun h => by simp [hblocked] at h
      carried := fun h => by simpa [hc, ConsumerPc.isAwaiting] using hi.carried h
      cancelled := hi.cancelled
      returned := hi.returned
      unresumed := fun _ => hi.unresumed (by rw [hc]; rfl)
      resumptions := hi.resumptions }

theorem Inv.setMaybeBlocked (hi : Inv s) (hc : s.consumer = .setMaybeBlocked) :
    Inv { s with maybeBlocked := true, consumer := .suspended, launching := true } := by
  have hparked := hi.parked (by rw [hc]; rfl)
  have hcopies := (TaskPc.of_isSettled (TaskPc.isSettled_of_isParked hparked)).2
  exact
    { token := fun _ => hi.token (by rw [hc]; rfl)
      taken := nofun
      stale := nofun
      copies := fun h => by simp [hcopies] at h
      settled := fun _ => .inl rfl
      launching := fun _ => hparked
      parked := nofun
      blocked := fun _ => rfl
      carried := fun _ => rfl
      cancelled := hi.cancelled
      returned := hi.returned
      unresumed := fun _ => hi.unresumed (by rw [hc]; rfl)
      resumptions := hi.resumptions }

/-- The consumer is no longer registered from here on. -/
theorem Inv.clearContinuation (hi : Inv s) (hc : s.consumer = .clearContinuation) :
    Inv { s with continuation := false, consumer := .removeAwaiter } := by
  have hcopies : s.task.copies = false := by
    by_contra h
    rw [(hi.copies (by simpa using h)).1] at hc
    cases hc
  exact
    { token := nofun
      taken := fun _ => hi.taken (by rw [hc]; rfl)
      stale := nofun
      copies := fun h => by simp [hcopies] at h
      settled := fun h => by simpa [hc, ConsumerPc.isAwaiting] using hi.settled h
      launching := hi.launching
      parked := nofun
      blocked := fun _ => rfl
      carried := fun _ => rfl
      cancelled := hi.cancelled
      returned := hi.returned
      unresumed := nofun
      resumptions := hi.resumptions }

theorem Inv.consumerStep (hi : Inv s) {sameThreadPoolKind canDoChainedExecution : Bool}
    (ha : consumerStep s sameThreadPoolKind canDoChainedExecution s.consumer = some s') :
    Inv s' := by
  cases hc : s.consumer <;> simp only [hc, TaskAwait.consumerStep, reduceCtorEq] at ha <;> cases ha
  case ready | readyDone =>
    split <;> exact hi.goConsumer hc rfl nofun rfl (fun _ => rfl) nofun nofun
  case suspendRead => exact hi.goConsumer hc rfl nofun rfl (fun _ => rfl) nofun nofun
  case suspend isCancelled =>
    have hclear := hi.continuation_eq (by rw [hc]; rfl) (by rw [hc]; exact nofun)
    refine hi.setStatus fun prevStatus newStatus => ?_
    dsimp only
    split
    · exact hi.setConsumer (by rw [hc]; rfl) hclear rfl nofun nofun nofun le_rfl
    · exact hi.setConsumer (by rw [hc]; rfl) hclear rfl (fun _ => by rw [hc]; rfl) nofun
        (fun _ => rfl) (Nat.zero_le 1)
  case taskStatus =>
    split
    next hs =>
      refine hi.goConsumer hc rfl nofun rfl (fun _ => rfl) (fun _ => ?_) fun _ => rfl
      refine hi.isParked_of_startable (by rw [hc]; rfl) ?_
      rcases hs with hs | hs <;> rw [hs] <;> rfl
    next => exact hi.goConsumer hc rfl nofun rfl (fun _ => rfl) nofun fun _ => rfl
  case taskDone =>
    have hclear := hi.continuation_eq (by rw [hc]; rfl) (by rw [hc]; exact nofun)
    split
    · exact hi.setConsumer (by rw [hc]; rfl) hclear rfl nofun nofun nofun le_rfl
    · rw [← hc]
      exact hi.forget
  case markTask expected =>
    have hparked := hi.parked (by rw [hc]; rfl)
    have hi' : Inv { s with taskStatus := suspended } := hi.replaceTaskStatus fun _ => rfl
    split
    · exact hi'.goConsumer hc rfl nofun rfl (fun _ => rfl) (fun _ => hparked) fun _ => rfl
    · rw [← hc]
      exact hi'.forget
  case storeContinuation => exact hi.storeContinuation hc
  case setMaybeBlocked => exact hi.setMaybeBlocked hc
  case clearContinuation => exact hi.clearContinuation hc
  case removeAwaiter => exact hi.goConsumer hc rfl nofun rfl nofun nofun nofun
  case setRunning =>
    refine hi.setStatus fun prevStatus newStatus => ?_
    dsimp only
    split <;> exact hi.goConsumer hc rfl nofun rfl nofun nofun nofun
  case spinPaused =>
    split
    · exact hi
    · exact hi.goConsumer hc rfl nofun rfl nofun nofun nofun

theorem Inv.launching_eq (hi : Inv s) (hrun : s.task.isSettled = false) : s.launching = false := by
  by_contra h
  have hsettled := TaskPc.isSettled_of_isParked (hi.launching (by simpa using h))
  rw [hrun] at hsettled
  cases hsettled

/-- While the task runs, a consumer in `m_continuation` is suspended. -/
theorem Inv.suspended_of_continuation (hi : Inv s) (hrun : s.task.isSettled = false)
    (h : s.continuation = true ∨ s.task.carries = true) : s.consumer = .suspended := by
  have hregistered : s.consumer.isRegistered = true := by
    by_contra hne
    rw [Bool.not_eq_true] at hne
    rcases h with h | h
    · rw [(hi.stale hne h).2.1] at hrun
      cases hrun
    · rw [(hi.taken hne).1] at h
      cases h
  rcases hi.settled (.inl hrun) with hc | ⟨_, hc⟩
  · exact hc
  · cases hp : s.consumer <;> simp_all [ConsumerPc.isRegistered, ConsumerPc.isAwaiting]

theorem Inv.goTask (hi : Inv s) {t p : TaskPc} (ht : s.task = t) (hrun : t.isSettled = false)
    (hcarries : p.carries = t.carries)
    (hcopies : p.copies = true → s.consumer = .suspended ∧ s.continuation = true)
    (hreturned : p.hasReturned = true → isStartable status = false) :
    Inv { s with
      taskStatus := status, completionPending := completionPending, task := p
      taskAllowed := taskAllowed, assertFailed := assertFailed } := by
  subst ht
  have hlaunching := hi.launching_eq hrun
  refine
    { token := fun h => hcarries ▸ hi.token h
      taken := fun h => hcarries ▸ hi.taken h
      stale := fun h hc => ?_
      copies := hcopies
      settled := fun _ => hi.settled (.inl hrun)
      launching := fun h => ?_
      parked := fun h => ?_
      blocked := hi.blocked
      carried := hi.carried
      cancelled := hi.cancelled
      returned := hreturned
      unresumed := hi.unresumed
      resumptions := hi.resumptions }
  · rw [(hi.stale h hc).2.1] at hrun
    cases hrun
  · rw [hlaunching] at h
    cases h
  · rw [TaskPc.isSettled_of_isParked (hi.parked h)] at hrun
    cases hrun

theorem Inv.exchangeContinuation (hi : Inv s) (ht : s.task = .exchangeContinuation) :
    Inv { s with continuation := false, task := .complete s.continuation } := by
  have hrun : s.task.isSettled = false := by rw [ht]; rfl
  have hlaunching := hi.launching_eq hrun
  refine
    { token := fun h => ?_
      taken := fun h => ⟨?_, (hi.taken h).2⟩
      stale := nofun
      copies := nofun
      settled := fun _ => hi.settled (.inl hrun)
      launching := fun h => ?_
      parked := fun h => ?_
      blocked := hi.blocked
      carried := hi.carried
      cancelled := hi.cancelled
      returned := fun _ => hi.returned (by rw [ht]; rfl)
      unresumed := hi.unresumed
      resumptions := hi.resumptions }
  · have htoken := hi.token h
    rw [ht] at htoken
    simpa [TaskPc.carries] using htoken
  · by_contra hc
    have hsuspended := hi.suspended_of_continuation hrun (.inl (by simpa [TaskPc.carries] using hc))
    rw [hsuspended] at h
    cases h
  · rw [hlaunching] at h
    cases h
  · rw [TaskPc.isSettled_of_isParked (hi.parked h)] at hrun
    cases hrun

theorem Inv.resumeConsumer (hi : Inv s) (hc : s.consumer = .suspended) {p : TaskPc}
    {r : CancelPc} (hp : p.carries = false ∧ p.copies = false) (hr : r.carries = false)
    (hcontinuation : s.continuation = true → p.isSettled = true ∧ s.launching = false)
    (hsettled : p.isSettled = false ∨ s.launching = true → s.cancelled = true)
    (hlaunching : s.launching = true → p.isParked = true)
    (hmarked : r.hasMarked = true → s.cancelled = true)
    (hreturned : p.hasReturned = true → isStartable s.taskStatus = false) :
    Inv { s.resumeConsumer allowed with task := p, canceller := r } := by
  have hzero := hi.unresumed (by rw [hc]; rfl)
  have hclear : (s.resumeConsumer allowed).consumer = .clearContinuation := by
    simp [State.resumeConsumer, hc]
  exact
    { token := fun h => by simp [hclear, ConsumerPc.isRegistered] at h
      taken := fun _ => ⟨hp.1, hr⟩
      stale := fun _ h => ⟨hclear, hcontinuation h⟩
      copies := fun h => by simp [hp.2] at h
      settled := fun h => .inr ⟨hsettled h, by rw [hclear]; rfl⟩
      launching := hlaunching
      parked := fun h => by simp [hclear, ConsumerPc.hasParked] at h
      blocked := fun _ => by rw [hclear]; rfl
      carried := fun _ => by rw [hclear]; rfl
      cancelled := hmarked
      returned := hreturned
      unresumed := fun h => by simp [hclear, ConsumerPc.isUnresumed] at h
      resumptions := by simp [State.resumeConsumer, hzero] }

theorem Inv.taskStep (hi : Inv s) {sameThreadPoolKind canDoChainedExecution lastUnit : Bool}
    (ha : taskStep s sameThreadPoolKind canDoChainedExecution lastUnit s.task = some s') :
    Inv s' := by
  have hcopies := hi.copies
  have hreturned := hi.returned
  cases ht : s.task <;>
    simp only [ht, TaskAwait.taskStep, reduceCtorEq] at ha hcopies hreturned <;> cases ha
  case setRunning =>
    exact hi.setTaskStatus fun newStatus _ => hi.goTask ht rfl rfl nofun nofun
  case setYielded =>
    exact hi.setTaskStatus fun newStatus _ => hi.goTask ht rfl rfl nofun nofun
  case readContinuation =>
    refine hi.goTask ht rfl rfl (fun h => ⟨?_, h⟩) nofun
    exact hi.suspended_of_continuation (by rw [ht]; rfl) (.inl h)
  case readyYield copy =>
    split <;> exact hi.goTask ht rfl rfl (by first | exact hcopies | nofun) nofun
  case suspendRead copy => exact hi.goTask ht rfl rfl hcopies nofun
  case suspendYield copy isCancelled =>
    refine hi.setTaskStatus fun newStatus _ => ?_
    dsimp only
    split
    · exact hi.goTask ht rfl rfl nofun nofun
    · split
      next hcopy => exact hi.goTask ht rfl rfl (fun _ => hcopies hcopy) nofun
      next => exact hi.goTask ht rfl rfl nofun nofun
  case resumeFromYield allowed =>
    obtain ⟨hc, hcontinuation⟩ := hcopies rfl
    have hlaunching := hi.launching_eq (by rw [ht]; rfl)
    have htoken := hi.token (by rw [hc]; rfl)
    have hcanceller : s.canceller.carries = false := by
      rw [hcontinuation] at htoken
      by_contra h
      simp only [Bool.not_eq_false] at h
      simp [h] at htoken
    refine hi.resumeConsumer hc ⟨rfl, rfl⟩ hcanceller (fun _ => ⟨rfl, hlaunching⟩) (fun h => ?_)
      (fun _ => rfl) hi.cancelled nofun
    simp [hlaunching, TaskPc.isSettled, TaskPc.isParked] at h
  case setReturned =>
    exact hi.setTaskStatus fun newStatus h => hi.goTask ht rfl rfl nofun
      fun _ => isStartable_returned h
  case exchangeContinuation => exact hi.exchangeContinuation ht
  case complete copy =>
    split
    · exact hi.setTaskStatus fun newStatus h => hi.goTask ht rfl rfl nofun
        fun _ => isStartable_setStatus (hreturned rfl) (by simp) h
    · exact hi.goTask ht rfl rfl nofun fun _ => hreturned rfl
  case readyFinal copy =>
    split
    · split
      next hcopy => exact hi.goTask ht rfl hcopy.symm nofun fun _ => hreturned rfl
      next hcopy =>
        exact hi.goTask ht rfl (by simpa [TaskPc.carries] using hcopy) nofun fun _ => hreturned rfl
    · exact hi.goTask ht rfl rfl nofun fun _ => hreturned rfl
  case suspendFinal copy =>
    refine hi.setTaskStatus fun newStatus h => ?_
    have hstatus := isStartable_setStatus (hreturned rfl) (by simp) h
    dsimp only
    split
    next hcopy => exact hi.goTask ht rfl hcopy.symm nofun fun _ => hstatus
    next hcopy =>
      exact hi.goTask ht rfl (by simpa [TaskPc.carries] using hcopy) nofun fun _ => hstatus
  case resumeFromFinal allowed =>
    have hrun : s.task.isSettled = false := by rw [ht]; rfl
    have hc := hi.suspended_of_continuation hrun (.inr (by rw [ht]; rfl))
    have hlaunching := hi.launching_eq hrun
    have htoken := hi.token (by rw [hc]; rfl)
    have hcanceller : s.canceller.carries = false := by
      by_contra h
      simp only [Bool.not_eq_false] at h
      simp [ht, h, TaskPc.carries] at htoken
    refine hi.resumeConsumer hc ⟨rfl, rfl⟩ hcanceller (fun _ => ⟨rfl, hlaunching⟩) (fun h => ?_)
      (fun h => ?_) hi.cancelled fun _ => hreturned rfl
    · simp [hlaunching, TaskPc.isSettled] at h
    · simp [hlaunching] at h

theorem Inv.goCanceller (hi : Inv s) {c r : CancelPc} (hc : s.canceller = c)
    (hcarries : r.carries = c.carries) (hmarked : r.hasMarked = true → s.cancelled = true)
    (hexchange : ∀ found, r = .exchange found → s.consumer.isAwaiting = false) :
    Inv { s with status := status, awaiterListed := awaiterListed, canceller := r } := by
  subst hc
  exact
    { token := fun h => hcarries ▸ hi.token h
      taken := fun h => hcarries ▸ hi.taken h
      stale := hi.stale
      copies := hi.copies
      settled := hi.settled
      launching := hi.launching
      parked := hi.parked
      blocked := hi.blocked
      carried := fun h => h.elim (fun h => hi.carried (.inl (hcarries ▸ h)))
        fun ⟨found, h⟩ => hexchange found h
      cancelled := hmarked
      returned := hi.returned
      unresumed := hi.unresumed
      resumptions := hi.resumptions }

/-- `TaskAwaiterBase::cancel` takes no consumer that `yield_value` has copied
from `m_continuation`: neither while the yield awaiter holds the copy nor after
it has resumed the consumer with it. -/
def cancelsUncopied (s : State) : Action → Bool
  | .canceller =>
      match s.canceller with
      | .exchange _ =>
          !(s.continuation && (s.task.copies || s.consumer = .clearContinuation))
      | _ => true
  | _ => true

theorem Inv.cancelStep (hi : Inv s) (hg : cancelsUncopied s .canceller = true)
    (ha : cancelStep s s.canceller = some s') : Inv s' := by
  have hcancelled := hi.cancelled
  have hcarried := hi.carried
  cases hc : s.canceller <;>
    simp only [hc, TaskAwait.cancelStep, reduceCtorEq] at ha hcancelled hcarried <;> cases ha
  case mark =>
    exact
      { hi with
        token := fun h => by simpa [hc, CancelPc.carries] using hi.token h
        taken := fun h => ⟨(hi.taken h).1, rfl⟩
        settled := fun h => (hi.settled h).imp_right fun h => ⟨rfl, h.2⟩
        carried := nofun
        cancelled := fun _ => rfl }
  case exchange found =>
    split
    next hcontinuation =>
      simp only [cancelsUncopied, hc, hcontinuation, Bool.true_and, Bool.not_eq_true',
        Bool.or_eq_false_iff, decide_eq_false_iff_not] at hg
      have hregistered : s.consumer.isRegistered = true := by
        by_contra h
        exact hg.2 (hi.stale (by simpa using h) hcontinuation).1
      exact
        { hi with
          token := fun h => by
            have htoken := hi.token h
            simp only [hcontinuation, hc, CancelPc.carries] at htoken ⊢
            simpa using htoken
          taken := fun h => by
            rw [hregistered] at h
            cases h
          stale := nofun
          copies := fun h => by simp [hg.1] at h
          carried := fun _ => hcarried (.inr ⟨found, rfl⟩)
          cancelled := fun _ => hcancelled rfl }
    next => exact hi.goCanceller hc rfl (fun _ => hcancelled rfl) nofun
  case schedule found =>
    have hregistered : s.consumer.isRegistered = true := by
      by_contra h
      have htaken := (hi.taken (by simpa using h)).2
      rw [hc] at htaken
      cases htaken
    have hsuspended : s.consumer = .suspended := by
      have hawaiting := hcarried (.inl rfl)
      cases hp : s.consumer <;> simp_all [ConsumerPc.isRegistered, ConsumerPc.isAwaiting]
    have htoken := hi.token hregistered
    simp only [hc, CancelPc.carries, Bool.toNat_true, Nat.add_eq_right, Nat.add_eq_zero_iff,
      Bool.toNat_eq_zero] at htoken
    have hcopies : s.task.copies = false := by
      by_contra h
      rw [(hi.copies (by simpa using h)).2] at htoken
      cases htoken.1
    exact hi.resumeConsumer hsuspended ⟨htoken.2, hcopies⟩ rfl (by simp [htoken.1])
      (fun _ => hcancelled rfl) hi.launching (fun _ => hcancelled rfl) hi.returned
  case status | empty =>
    split <;> exact hi.goCanceller hc rfl (fun _ => hcancelled rfl) nofun
  case pause =>
    refine hi.setStatus fun prevStatus newStatus => ?_
    dsimp only
    split <;> exact hi.goCanceller hc rfl (fun _ => hcancelled rfl) nofun
  case takeAwaiter found =>
    split <;> exact hi.goCanceller hc rfl (fun _ => hcancelled rfl) nofun
  case tryAwaiter found =>
    split
    next hblocked =>
      exact hi.goCanceller hc rfl (fun _ => hcancelled rfl) fun _ _ => hi.blocked hblocked
    next => exact hi.goCanceller hc rfl (fun _ => hcancelled rfl) nofun
  case checkPaused found =>
    split <;> exact hi.goCanceller hc rfl (fun _ => hcancelled rfl) nofun
  case resume =>
    exact hi.setStatus fun prevStatus newStatus =>
      hi.goCanceller hc rfl (fun _ => hcancelled rfl) nofun

theorem Inv.await (hi : Inv s) (hc : s.consumer = .body) (hcancelled : s.cancelled = false) :
    Inv { s with maybeBlocked := false, consumer := .ready } := by
  have hclear := hi.continuation_eq (by rw [hc]; rfl) (by rw [hc]; exact nofun)
  have hcopies : s.task.copies = false := by
    by_contra h
    rw [(hi.copies (by simpa using h)).1] at hc
    cases hc
  have hserved : ¬(s.task.isSettled = false ∨ s.launching = true) := fun h => by
    rcases hi.settled h with h | ⟨h, _⟩
    · rw [h] at hc
      cases hc
    · rw [hcancelled] at h
      cases h
  refine
    { hi with
      token := nofun
      taken := fun _ => hi.taken (by rw [hc]; rfl)
      stale := fun _ h => by simp [hclear] at h
      copies := fun h => by simp [hcopies] at h
      settled := fun h => absurd h hserved
      parked := nofun
      blocked := nofun
      carried := fun h => ?_
      unresumed := nofun }
  have hmarked : s.canceller.hasMarked = true := by
    rcases h with h | ⟨found, h⟩ <;> cases hp : s.canceller <;>
      simp_all [CancelPc.carries, CancelPc.hasMarked]
  rw [hi.cancelled hmarked] at hcancelled
  cases hcancelled

theorem Inv.launch (hi : Inv s) (hl : s.launching = true) :
    Inv { s with launching := false, task := .setRunning } := by
  have hparked := hi.launching hl
  obtain ⟨hcarries, hcopies⟩ := TaskPc.of_isSettled (TaskPc.isSettled_of_isParked hparked)
  refine
    { hi with
      token := fun h => by
        have htoken := hi.token h
        rwa [hcarries] at htoken
      taken := fun h => ⟨rfl, (hi.taken h).2⟩
      stale := fun h hc => ?_
      copies := nofun
      settled := fun _ => hi.settled (.inr hl)
      launching := nofun
      parked := fun h => ?_
      returned := nofun }
  · rw [(hi.stale h hc).2.2] at hl
    cases hl
  · rcases hi.settled (.inr hl) with hc | ⟨_, hc⟩ <;>
      cases hp : s.consumer <;> simp_all [ConsumerPc.hasParked, ConsumerPc.isAwaiting]

theorem Inv.step (hi : Inv s) {a : Action} (hg : cancelsUncopied s a = true)
    (ha : step s a = some s') : Inv s' := by
  obtain ⟨-, ha⟩ := Option.ite_none_left_eq_some.mp ha
  cases a with
  | await =>
      obtain ⟨hc, ha⟩ := Option.ite_none_right_eq_some.mp ha
      cases ha
      split
      · exact hi
      next hcancelled => exact hi.await hc (by simpa using hcancelled)
  | consumer sameThreadPoolKind canDoChainedExecution => exact hi.consumerStep ha
  | launch =>
      obtain ⟨hl, ha⟩ := Option.ite_none_right_eq_some.mp ha
      cases ha
      have hparked : s.task = .notStarted ∨ s.task = .yielded := by
        have := hi.launching hl
        cases hp : s.task <;> simp_all [TaskPc.isParked]
      rw [if_pos hparked]
      exact hi.launch hl
  | taskAwaits status =>
      obtain ⟨⟨ht, _⟩, ha⟩ := Option.ite_none_right_eq_some.mp ha
      cases ha
      exact hi.setTaskStatus fun newStatus _ => hi.replaceTaskStatus (by rw [ht]; exact nofun)
  | yield | finish =>
      obtain ⟨⟨ht, _⟩, ha⟩ := Option.ite_none_right_eq_some.mp ha
      cases ha
      exact hi.goTask ht rfl rfl nofun nofun
  | task sameThreadPoolKind canDoChainedExecution lastUnit => exact hi.taskStep ha
  | complete =>
      obtain ⟨_, ha⟩ := Option.ite_none_right_eq_some.mp ha
      cases ha
      refine hi.setTaskStatus fun newStatus h => ?_
      have hi' : Inv { s with taskStatus := newStatus } :=
        hi.replaceTaskStatus fun hr => isStartable_setStatus (hi.returned hr) (by simp) h
      exact hi'.forget
  | cancelTask =>
      cases ha
      exact hi.forget
  | cancel =>
      obtain ⟨hc, ha⟩ := Option.ite_none_right_eq_some.mp ha
      cases ha
      exact hi.goCanceller hc rfl nofun nofun
  | canceller => exact hi.cancelStep hg ha

theorem inv_initial : Inv initial where
  token := nofun
  taken := fun _ => ⟨rfl, rfl⟩
  stale := nofun
  copies := nofun
  settled := nofun
  launching := nofun
  parked := nofun
  blocked := nofun
  carried := nofun
  cancelled := nofun
  returned := nofun
  unresumed := nofun
  resumptions := Nat.zero_le 1

/-- As long as the canceller takes no consumer that `yield_value` has copied,
the consumer is resumed at most once for each suspension, by the task or by the
canceller, in every interleaving. -/
theorem consumer_resumed_once
    (hs : system.ReachWhile (fun s a => cancelsUncopied s a = true) s) : s.resumptions ≤ 1 := by
  have hi : Inv s := hs.invariant (fun s h => by
    obtain rfl : s = initial := h
    exact inv_initial) fun s a s' hi hg ha => hi.step hg ha
  exact hi.resumptions

end Steps

/-- The consumer awaits the task, which runs to a `co_yield` and reads the
continuation there. -/
def awaitsUntilYield : List Action :=
  .await :: List.replicate 8 (.consumer true true) ++
    [.launch, .task true true true, .yield, .task true true true, .task true true true]

/-- A cancellation up to the schedule of the consumer. -/
def cancels : List Action := .cancel :: List.replicate 8 .canceller

/-- The canceller comes after the consumer has cleared the continuation. -/
theorem consumer_resumed_once_by_yield : ∃ s : State,
    system.Reach s ∧ s.canceller = .takeAwaiter true ∧ s.resumptions = 1 := by
  let run := awaitsUntilYield ++ List.replicate 4 (.task true true true) ++
    .consumer true true :: cancels.take 8
  let M := system.restrict fun s a => cancelsUncopied s a = true
  obtain ⟨s, hr, hcanceller, hone⟩ := StepSystem.Reach.exists_of_exec (M := M)
    (P := fun s => s.canceller = .takeAwaiter true ∧ s.resumptions ≠ 0) (.start rfl) run (by decide)
  have hle := consumer_resumed_once hr.reachWhile
  exact ⟨s, hr.reachWhile.reach, hcanceller, by omega⟩

/-- The canceller takes the consumer while the yield awaiter holds a copy of it:
both resume it. -/
theorem consumer_resumed_twice : ¬∀ s, system.Reach s → s.resumptions ≤ 1 := by
  intro h
  let run := awaitsUntilYield ++ cancels ++ List.replicate 4 (.task true true true)
  obtain ⟨s, hr, htwice⟩ := StepSystem.Reach.exists_of_exec (M := system)
    (P := fun s => s.resumptions = 2) (.start rfl) run (by decide)
  have hle := h s hr
  omega

end LevelzAsync.TaskAwait
