import LevelzAsync.LifecycleInvariant

/-!
# When a coroutine is done

`isDone` looks at the status word only. As long as the last handle is not dropped it
tells whether the body has come to its end, through every order of the completion, the
final suspension and the pauses of cancellers, and what it has told stays true.
-/

namespace LevelzAsync.Lifecycle

open CoroutineStatus

def OwnPc.hasReturned : OwnPc → Bool
  | countCheck | setCompleted | countDownLast | signalOwner | enqueueCompletedState | countDown
  | ready .final | suspendRead .final | suspend .final _ _ | finalSuspended | destroying
  | destroyed => true
  | _ => false

namespace OwnPc

variable {own : OwnPc} {kind : AwaiterKind} {completed pausing : Bool} {status : CoroutineStatus}

theorem isDone_returnedStatuses (h : status ∈ returnedStatuses completed false pausing) :
    status.isDone = true := by
  cases completed <;> cases pausing <;> simp_all [returnedStatuses, isDone]

theorem isDone_enteringStatuses (hk : kind ≠ .final)
    (h : status ∈ enteringStatuses kind completed false pausing) : status.isDone = false := by
  cases pausing <;> cases kind <;> simp_all [enteringStatuses, awakeStatuses, isDone]

theorem isDone_leavingStatuses (h : status ∈ leavingStatuses kind false pausing) :
    status.isDone = false := by
  cases pausing <;> cases kind <;> simp [leavingStatuses] at h <;>
    (try rcases h with rfl | rfl | rfl) <;> simp_all [isDone]

theorem isDone_awakeStatuses (h : status ∈ awakeStatuses false pausing) :
    status.isDone = false := by
  cases pausing <;> simp_all [awakeStatuses, isDone]

theorem isDone_statuses (h : status ∈ own.statuses completed false pausing) :
    status.isDone = own.hasReturned := by
  cases own with
  | ready kind | suspendRead kind | suspend kind =>
      by_cases hk : kind = .final
      · subst hk
        exact isDone_returnedStatuses h
      · rw [isDone_enteringStatuses hk h]
        cases kind <;> first | rfl | exact absurd rfl hk
  | parked kind | removeAwaiter kind | setRunning kind => exact isDone_leavingStatuses h
  | spinPaused => cases pausing <;> simp_all [statuses, awakeStatuses, isDone, hasReturned]
  | body | setYielded | setReturned => exact isDone_awakeStatuses h
  | finalSuspended =>
      cases completed <;> cases pausing <;> simp_all [statuses, isDone, hasReturned]
  | destroying | destroyed => simp [statuses] at h
  | _ => exact isDone_returnedStatuses h

end OwnPc

section Steps

variable {s s' : State}

theorem State.setStatus_own {isFinalAwaiter : Bool} {status : CoroutineStatus}
    {next : CoroutineStatus → State → State} {P : OwnPc → Prop}
    (hnext : ∀ prevStatus newStatus, P (next prevStatus { s with status := newStatus }).own)
    (habort : P s.own) : P (s.setStatus isFinalAwaiter status next).own := by
  unfold State.setStatus
  split
  · exact hnext _ _
  · exact habort

/-- After its return the coroutine goes through its final suspension only. -/
theorem hasReturned_ownStep {b₁ b₂ b₃ b₄ : Bool} (hown : s.own.hasReturned = true)
    (h : ownStep s b₁ b₂ b₃ b₄ s.own = some s') : s'.own.hasReturned = true := by
  have hstay : ∀ {status : CoroutineStatus} {isFinalAwaiter : Bool}
      {next : CoroutineStatus → State → State},
      (∀ prevStatus newStatus,
        (next prevStatus { s with status := newStatus }).own.hasReturned = true) →
      (s.setStatus isFinalAwaiter status next).own.hasReturned = true := fun hnext =>
    State.setStatus_own (P := fun own => own.hasReturned = true) hnext hown
  cases hpc : s.own with
  | ready kind =>
      rw [hpc] at h hown
      cases kind with
      | final =>
          cases h
          dsimp only
          rw [if_pos rfl]
          split_ifs
          · rfl
          · rfl
      | _ => cases hown
  | suspendRead kind =>
      rw [hpc] at h hown
      cases h
      cases kind with
      | final => rfl
      | _ => cases hown
  | suspend kind isCancelled shouldCancelAbandoned =>
      rw [hpc] at h hown
      cases h
      cases kind with
      | final =>
          refine hstay fun prevStatus newStatus => ?_
          dsimp only
          rw [if_pos rfl]
          split_ifs
          · rfl
          · rfl
      | _ => cases hown
  | countCheck =>
      rw [hpc] at h
      cases h
      dsimp only
      split_ifs
      · rfl
      · rfl
  | setCompleted =>
      rw [hpc] at h
      cases h
      exact hstay fun _ _ => rfl
  | countDownLast | signalOwner | enqueueCompletedState | countDown | destroying =>
      rw [hpc] at h
      cases h
      rfl
  | finalSuspended | destroyed =>
      rw [hpc] at h
      cases h
  | _ =>
      rw [hpc] at hown
      cases hown

theorem completionStep_own (h : completionStep s s.completion = some s') :
    s'.own = s.own := by
  cases hc : s.completion with rw [hc] at h
  | waiting | signalOwner | destroying =>
      cases h
      rfl
  | setCompleted =>
      cases h
      exact State.setStatus_own (P := fun own => own = s.own) (fun _ _ => rfl) rfl
  | _ => cases h

/-- The other parties move only a parked coroutine. -/
def Unparks (s s' : State) : Prop :=
  s'.own = s.own ∨ ∃ kind, s.own = .parked kind ∧ s'.own = .removeAwaiter kind

theorem consumerStep_own (h : consumerStep s s.consumer = some s') : Unparks s s' := by
  cases hc : s.consumer with rw [hc] at h
  | idle => cases h
  | mark expected =>
      cases h
      split_ifs
      · exact .inl rfl
      · exact .inl rfl
  | start =>
      unfold consumerStep at h
      dsimp only at h
      split at h
      · next kind hown =>
          cases h
          exact .inr ⟨kind, hown, rfl⟩
      · cases h

theorem holderStep_own {b₁ b₂ b₃ : Bool} (h : holderStep s b₁ b₂ b₃ s.holder = some s') :
    Unparks s s' := by
  have hstatus : ∀ {status : CoroutineStatus} {next : CoroutineStatus → State → State},
      (∀ prevStatus newStatus,
        (next prevStatus { s with status := newStatus }).own = s.own) →
      (s.setStatus false status next).own = s.own := fun hnext =>
    State.setStatus_own (P := fun own => own = s.own) hnext rfl
  cases hc : s.holder with rw [hc] at h
  | pause caller | resume caller | abandon =>
      cases h
      exact .inl (hstatus fun _ _ => rfl)
  | takeAwaiter caller found =>
      cases h
      split_ifs
      · exact .inl rfl
      · exact .inl rfl
  | scheduleYielded =>
      cases h
      by_cases hown : s.own = .parked .yield
      · exact .inr ⟨.yield, hown, if_pos hown⟩
      · exact .inl (if_neg hown)
  | holding | dropped => cases h
  | _ =>
      cases h
      exact .inl rfl

/-- A step is one of the body, one of the coroutine, or one of another party. -/
theorem step_own_cases {a : Action} (h : step s a = some s') :
    (∃ b, a = .body b ∧ s.own = .body ∧ bodyStep s b = some s') ∨
    (∃ b₁ b₂ b₃ b₄, a = .own b₁ b₂ b₃ b₄ ∧ ownStep s b₁ b₂ b₃ b₄ s.own = some s') ∨
    Unparks s s' := by
  obtain ⟨-, h⟩ := Option.ite_none_left_eq_some.mp h
  cases a with
  | body b =>
      obtain ⟨hbody, h⟩ := Option.ite_none_right_eq_some.mp h
      exact .inl ⟨b, rfl, hbody, h⟩
  | own b₁ b₂ b₃ b₄ => exact .inr (.inl ⟨b₁, b₂, b₃, b₄, rfl, h⟩)
  | schedule =>
      dsimp only at h
      split at h
      · next kind hparked =>
          obtain ⟨-, he⟩ := Option.ite_none_right_eq_some.mp h
          cases he
          exact .inr (.inr (.inr ⟨kind, hparked, rfl⟩))
      · cases h
  | completion => exact .inr (.inr (.inl (completionStep_own h)))
  | consumer => exact .inr (.inr (consumerStep_own h))
  | holder b₁ b₂ b₃ => exact .inr (.inr (holderStep_own h))
  | await | setCancelAbandoned b | cancel | drop =>
      obtain ⟨-, he⟩ := Option.ite_none_right_eq_some.mp h
      cases he
      exact .inr (.inr (.inl rfl))

theorem hasReturned_step {a : Action} (hown : s.own.hasReturned = true)
    (h : step s a = some s') : s'.own.hasReturned = true := by
  rcases step_own_cases h with ⟨b, -, hbody, -⟩ | ⟨b₁, b₂, b₃, b₄, -, h⟩ | hsame |
      ⟨kind, hparked, -⟩
  · rw [hbody] at hown
    cases hown
  · exact hasReturned_ownStep hown h
  · rwa [hsame]
  · rw [hparked] at hown
    cases hown

/-- The body is over when `setStatus(Returned)` is made, and only then. -/
theorem setReturned_of_ownStep {b₁ b₂ b₃ b₄ : Bool} (hown : s.own.hasReturned = false)
    (h : ownStep s b₁ b₂ b₃ b₄ s.own = some s') (hown' : s'.own.hasReturned = true) :
    s.own = .setReturned ∧ s'.own = .countCheck := by
  have habsurd : ∀ {status : CoroutineStatus} {isFinalAwaiter : Bool}
      {next : CoroutineStatus → State → State},
      s' = s.setStatus isFinalAwaiter status next →
      (∀ prevStatus newStatus,
        (next prevStatus { s with status := newStatus }).own.hasReturned = false) → False := by
    rintro status isFinalAwaiter next rfl hnext
    have hstay : (s.setStatus isFinalAwaiter status next).own.hasReturned = false :=
      State.setStatus_own (P := fun own => own.hasReturned = false) hnext hown
    rw [hown'] at hstay
    cases hstay
  cases hpc : s.own with rw [hpc] at h hown
  | ready kind =>
      cases h
      cases kind with
      | final => cases hown
      | _ =>
          dsimp only at hown'
          rw [if_neg nofun] at hown'
          split_ifs at hown'
          · cases hown'
          · cases hown'
  | suspendRead kind =>
      cases h
      cases kind with
      | final => cases hown
      | _ => cases hown'
  | suspend kind isCancelled shouldCancelAbandoned =>
      cases kind with
      | final => cases hown
      | _ =>
          refine absurd (Option.some.inj h).symm fun he => habsurd he fun prevStatus newStatus => ?_
          dsimp only
          rw [if_neg nofun]
          split_ifs
          · rfl
          · rfl
  | removeAwaiter kind =>
      cases h
      cases hown'
  | setRunning kind =>
      refine absurd (Option.some.inj h).symm fun he => habsurd he fun prevStatus newStatus => ?_
      dsimp only
      split_ifs
      · rfl
      · rfl
  | spinPaused =>
      cases h
      dsimp only at hown'
      split_ifs at hown'
      · cases hown'
      · cases hown'
  | setYielded => exact absurd (Option.some.inj h).symm fun he => habsurd he fun _ _ => rfl
  | setReturned =>
      refine ⟨rfl, ?_⟩
      cases h
      unfold State.setStatus at hown' ⊢
      split
      · rfl
      · next hnone =>
          rw [hnone] at hown'
          dsimp only at hown'
          rw [hpc] at hown'
          cases hown'
  | parked kind | body => cases h
  | _ => cases hown

theorem setReturned_of_step {a : Action} (hown : s.own.hasReturned = false)
    (h : step s a = some s') (hown' : s'.own.hasReturned = true) :
    s.own = .setReturned ∧ s'.own = .countCheck ∧ ∃ b₁ b₂ b₃ b₄, a = .own b₁ b₂ b₃ b₄ := by
  rcases step_own_cases h with ⟨b, -, hbody, h⟩ | ⟨b₁, b₂, b₃, b₄, ha, h⟩ | hsame |
      ⟨kind, -, hremove⟩
  · exfalso
    cases b with
    | await kind =>
        obtain ⟨hkind, he⟩ := Option.ite_none_right_eq_some.mp h
        cases he
        split_ifs at hown'
        · rw [hown] at hown'
          cases hown'
        · cases kind with
          | final => cases hkind
          | _ => cases hown'
    | yield =>
        obtain ⟨-, he⟩ := Option.ite_none_right_eq_some.mp h
        cases he
        cases hown'
    | finish =>
        cases h
        cases hown'
  · obtain ⟨hset, hcheck⟩ := setReturned_of_ownStep hown h hown'
    exact ⟨hset, hcheck, b₁, b₂, b₃, b₄, ha⟩
  · rw [hsame, hown] at hown'
    cases hown'
  · rw [hremove] at hown'
    cases hown'

end Steps

section Holders

variable {s s' : State}

theorem State.setStatus_holder {isFinalAwaiter : Bool} {status : CoroutineStatus}
    {next : CoroutineStatus → State → State} {P : HolderPc → Prop}
    (hnext : ∀ prevStatus newStatus, P (next prevStatus { s with status := newStatus }).holder)
    (habort : P s.holder) : P (s.setStatus isFinalAwaiter status next).holder := by
  unfold State.setStatus
  split
  · exact hnext _ _
  · exact habort

theorem ownStep_holder {b₁ b₂ b₃ b₄ : Bool} (h : ownStep s b₁ b₂ b₃ b₄ s.own = some s') :
    s'.holder = s.holder := by
  have hstatus : ∀ {status : CoroutineStatus} {isFinalAwaiter : Bool}
      {next : CoroutineStatus → State → State},
      (∀ prevStatus newStatus,
        (next prevStatus { s with status := newStatus }).holder = s.holder) →
      (s.setStatus isFinalAwaiter status next).holder = s.holder := fun hnext =>
    State.setStatus_holder (P := fun holder => holder = s.holder) hnext rfl
  cases hc : s.own with rw [hc] at h
  | suspend kind isCancelled shouldCancelAbandoned | setRunning kind | setYielded | setReturned
  | setCompleted =>
      cases h
      exact hstatus fun _ _ => rfl
  | parked kind | body | finalSuspended | destroyed => cases h
  | _ =>
      cases h
      rfl

/-- The holder goes on in `cancel` or in the drop, and a dropped handle is not held again. -/
theorem holderStep_holdsHandle {b₁ b₂ b₃ : Bool}
    (h : holderStep s b₁ b₂ b₃ s.holder = some s') :
    s'.holder.holdsHandle = s.holder.holdsHandle := by
  have hstatus : ∀ {status : CoroutineStatus} {next : CoroutineStatus → State → State},
      (∀ prevStatus newStatus, (next prevStatus { s with status := newStatus }).holder.holdsHandle =
        s.holder.holdsHandle) →
      (s.setStatus false status next).holder.holdsHandle = s.holder.holdsHandle := fun hnext =>
    State.setStatus_holder (P := fun holder => holder.holdsHandle = s.holder.holdsHandle) hnext rfl
  cases hc : s.holder with rw [hc] at h
  | cancelCheck caller | cancelStatus caller | cancelEmpty caller | checkPaused caller found =>
      cases h
      dsimp only
      split_ifs
      · cases caller <;> rfl
      · cases caller <;> rfl
  | cancelMark caller | tryAwaiter caller found =>
      cases h
      cases caller <;> rfl
  | takeAwaiter caller found =>
      cases h
      split_ifs
      · cases caller <;> rfl
      · cases caller <;> rfl
  | pause caller =>
      cases h
      rw [← hc]
      refine hstatus fun prevStatus newStatus => ?_
      rw [hc]
      dsimp only
      split_ifs
      · cases caller <;> rfl
      · cases caller <;> rfl
  | resume caller =>
      cases h
      rw [← hc]
      refine hstatus fun prevStatus newStatus => ?_
      rw [hc]
      cases caller <;> rfl
  | abandon =>
      cases h
      rw [← hc]
      refine hstatus fun prevStatus newStatus => ?_
      rw [hc]
      dsimp only
      split_ifs <;> rfl
  | dropStatus | dropShouldCancel | yieldCount =>
      cases h
      dsimp only
      split_ifs
      · rfl
      · rfl
  | holding | dropped => cases h
  | _ =>
      cases h
      rfl

theorem holdsHandle_step {a : Action} (h : step s a = some s') :
    (a ≠ .drop → s'.holder.holdsHandle = s.holder.holdsHandle) ∧
      (a = .drop → s'.holder.holdsHandle = false) := by
  obtain ⟨-, h⟩ := Option.ite_none_left_eq_some.mp h
  cases a with
  | body b =>
      refine ⟨fun _ => ?_, nofun⟩
      obtain ⟨-, h⟩ := Option.ite_none_right_eq_some.mp h
      cases b with
      | await kind =>
          obtain ⟨-, he⟩ := Option.ite_none_right_eq_some.mp h
          cases he
          split_ifs
          · rfl
          · rfl
      | yield =>
          obtain ⟨-, he⟩ := Option.ite_none_right_eq_some.mp h
          cases he
          rfl
      | finish =>
          cases h
          rfl
  | own b₁ b₂ b₃ b₄ =>
      exact ⟨fun _ => congrArg HolderPc.holdsHandle (ownStep_holder h), nofun⟩
  | schedule =>
      refine ⟨fun _ => ?_, nofun⟩
      dsimp only at h
      split at h
      · obtain ⟨-, he⟩ := Option.ite_none_right_eq_some.mp h
        cases he
        rfl
      · cases h
  | completion =>
      refine ⟨fun _ => ?_, nofun⟩
      cases hc : s.completion with rw [hc] at h
      | setCompleted =>
          cases h
          exact State.setStatus_holder
            (P := fun holder => holder.holdsHandle = s.holder.holdsHandle) (fun _ _ => rfl) rfl
      | none | enqueued | finished => cases h
      | _ =>
          cases h
          rfl
  | consumer =>
      refine ⟨fun _ => ?_, nofun⟩
      cases hc : s.consumer with rw [hc] at h
      | idle => cases h
      | mark expected =>
          cases h
          split_ifs
          · rfl
          · rfl
      | start =>
          unfold consumerStep at h
          dsimp only at h
          split at h
          · cases h
            rfl
          · cases h
  | holder b₁ b₂ b₃ => exact ⟨fun _ => holderStep_holdsHandle h, nofun⟩
  | await | setCancelAbandoned b =>
      obtain ⟨-, he⟩ := Option.ite_none_right_eq_some.mp h
      cases he
      exact ⟨fun _ => rfl, nofun⟩
  | cancel =>
      obtain ⟨hholder, he⟩ := Option.ite_none_right_eq_some.mp h
      cases he
      refine ⟨fun _ => ?_, nofun⟩
      rw [hholder]
      rfl
  | drop =>
      obtain ⟨-, he⟩ := Option.ite_none_right_eq_some.mp h
      cases he
      exact ⟨fun hne => absurd rfl hne, fun _ => rfl⟩

theorem not_hasAbandoned_of_holdsHandle {pc : HolderPc} (h : pc.holdsHandle = true) :
    pc.hasAbandoned = false := by
  cases pc with
  | cancelCheck caller | cancelMark caller | cancelStatus caller | cancelEmpty caller
  | pause caller | takeAwaiter caller found | tryAwaiter caller found | checkPaused caller found
  | resume caller =>
      cases caller with
      | holder | drop => rfl
      | abandonedYield => cases h
  | holding => rfl
  | _ => first | rfl | cases h

end Holders

section Runs

variable {s : State}

theorem isDone_eq_hasReturned (hs : system.Reach s) (hheld : s.holder.hasAbandoned = false) :
    s.status.isDone = s.own.hasReturned := by
  have hstatus := (inv_of_reach hs).status
  rw [hheld] at hstatus
  exact OwnPc.isDone_statuses hstatus

/-- While the last handle is held, `isDone` is true exactly from the return of the body
on: no completion, final suspension or cancellation makes it true earlier, or false
again. -/
theorem isDone_from_return_on (hs : system.Reach s) (hheld : s.holder.hasAbandoned = false) :
    s.status.isDone = s.own.hasReturned ∧
      ∀ s', system.RunWhile (fun _ _ => True) s s' → s'.holder.hasAbandoned = false →
        s.status.isDone = true → s'.status.isDone = true := by
  refine ⟨isDone_eq_hasReturned hs hheld, fun s' hrun hheld' hdone => ?_⟩
  rw [isDone_eq_hasReturned (hrun.reach hs) hheld']
  rw [isDone_eq_hasReturned hs hheld] at hdone
  exact hrun.invariant (I := fun s => s.own.hasReturned = true)
    (fun _ _ _ _ hown _ ha => hasReturned_step hown ha) hs hdone

end Runs

/-- A task that was cancelled while it waited, and has completed. -/
theorem isDone_from_return_on_completed : ∃ s : State, system.Reach s ∧
    s.status = .completedFinalSuspended ∧ s.status.isDone = s.own.hasReturned := by
  obtain ⟨s, hs, hstatus, hheld⟩ := StepSystem.Reach.exists_of_exec (M := system)
    (P := fun s => s.status = .completedFinalSuspended ∧ s.holder.hasAbandoned = false)
    (s := initial .async true) (.start ⟨_, _, by simp, rfl⟩)
    (cancelledWhileSuspended ++ runsToTheEnd) (by decide)
  exact ⟨s, hs, hstatus, (isDone_from_return_on hs hheld).1⟩

end LevelzAsync.Lifecycle
