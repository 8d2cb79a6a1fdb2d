import LevelzAsync.Lifecycle

/-!
# The status of a coroutine in every reachable state

The status word is determined by where the coroutine stands, whether it has
completed, whether it was abandoned and whether a canceller is pausing it:
`OwnPc.statuses` is that table. Each party's transitions stay inside it, so no
transition of a reachable state is one that the switch rejects, up to a pause
that comes after the final suspension. The table also says which party finds
that the other two are done.
-/

namespace LevelzAsync.Lifecycle

open CoroutineStatus

def CompletionPc.isCompleted : CompletionPc → Bool
  | .destroying | .finished => true
  | _ => false

namespace HolderPc

/-- The drop is recorded: by the abandonment, or because it found the coroutine
completed and finally suspended. -/
def hasAbandoned : HolderPc → Bool
  | cancelCheck .abandonedYield | cancelMark .abandonedYield | cancelStatus .abandonedYield
  | cancelEmpty .abandonedYield | pause .abandonedYield | takeAwaiter .abandonedYield _
  | tryAwaiter .abandonedYield _ | checkPaused .abandonedYield _ | resume .abandonedYield
  | yieldCount | clearContinuation | scheduleYielded | destroying | dropped => true
  | _ => false

def isPausing : HolderPc → Bool
  | takeAwaiter _ _ | tryAwaiter _ _ | checkPaused _ _ | resume _ => true
  | _ => false

/-- A second cancellation never gets past the status of an abandoned coroutine. -/
def isStray : HolderPc → Bool
  | cancelEmpty .abandonedYield | pause .abandonedYield | takeAwaiter .abandonedYield _
  | tryAwaiter .abandonedYield _ | checkPaused .abandonedYield _ | resume .abandonedYield => true
  | _ => false

end HolderPc

namespace OwnPc

def awakeStatuses (abandoned pausing : Bool) : List CoroutineStatus :=
  match abandoned, pausing with
  | false, false => [.running]
  | true, false => [.abandoned]
  | _, true => []

def returnedStatuses (completed abandoned pausing : Bool) : List CoroutineStatus :=
  match completed, abandoned, pausing with
  | false, false, false => [.returned]
  | true, false, false => [.returnedCompleted]
  | false, true, false => [.abandoned]
  | true, true, false => [.abandonedCompleted]
  | _, _, true => []

def enteringStatuses (kind : AwaiterKind) (completed abandoned pausing : Bool) :
    List CoroutineStatus :=
  match kind with
  | .final => returnedStatuses completed abandoned pausing
  | .initial | .threadPool =>
      match abandoned, pausing with
      | false, false => [.notStarted]
      | true, false => [.abandoned]
      | _, true => []
  | .yield =>
      match abandoned, pausing with
      | false, false => [.yielded]
      | true, false => [.abandoned]
      | _, true => []
  | _ => awakeStatuses abandoned pausing

/-- Between the suspension of the awaiter and the next `setStatus(Running)`, or
after an await that did not suspend. -/
def leavingStatuses (kind : AwaiterKind) (abandoned pausing : Bool) : List CoroutineStatus :=
  match abandoned, pausing with
  | false, true => if kind = .final then [] else [.pauseOnRunning]
  | true, true => []
  | true, false =>
      match kind with
      | .final => []
      | .yield => [.abandoned, .abandonedYieldSuspended]
      | _ => [.abandoned]
  | false, false =>
      match kind with
      | .final => []
      | .initial | .threadPool => [.notStarted, .suspended]
      | .yield => [.yielded, .yieldedSuspended, .suspended]
      | _ => [.running, .suspended]

/-- The statuses that a coroutine standing there can have. -/
def statuses (own : OwnPc) (completed abandoned pausing : Bool) : List CoroutineStatus :=
  match own with
  | ready kind | suspendRead kind | suspend kind _ _ =>
      enteringStatuses kind completed abandoned pausing
  | parked kind | removeAwaiter kind | setRunning kind => leavingStatuses kind abandoned pausing
  | spinPaused => if pausing = true ∧ abandoned = false then [.paused]
      else awakeStatuses abandoned pausing
  | body | setYielded | setReturned => awakeStatuses abandoned pausing
  | countCheck | setCompleted | countDownLast | signalOwner | enqueueCompletedState | countDown =>
      returnedStatuses completed abandoned pausing
  | finalSuspended =>
      match completed, abandoned, pausing with
      | false, false, false => [.finalSuspended]
      | true, false, false => [.completedFinalSuspended]
      | false, true, false => [.abandonedFinalSuspended]
      | true, true, false => [.abandonedFinalSuspended, .completedFinalSuspended]
      | _, _, true => []
  | destroying | destroyed =>
      if completed = true ∧ abandoned = true ∧ pausing = false then [.abandonedCompleted] else []

/-- How far the completion step can be while the coroutine stands there. -/
def allowsCompletion (own : OwnPc) (completion : CompletionPc) : Bool :=
  match own with
  | ready .final | suspendRead .final | suspend .final _ _ =>
      completion = .waiting ∨ completion = .signalOwner ∨ completion = .setCompleted ∨
        completion = .finished
  | finalSuspended =>
      completion = .waiting ∨ completion = .signalOwner ∨ completion = .setCompleted ∨
        completion = .finished ∨ completion = .destroying
  | countDown => completion = .enqueued
  | countDownLast | signalOwner | destroying | destroyed => completion = .finished
  | _ => completion = .none

end OwnPc

section Tables

variable {own : OwnPc} {kind : AwaiterKind} {completed abandoned pausing : Bool}
  {status : CoroutineStatus}

namespace OwnPc

/-- A pause is accepted everywhere but after the final suspension of a completed
coroutine. -/
theorem statuses_pause (h : status ∈ own.statuses completed false false)
    (hf : status ≠ .completedFinalSuspended) :
    ∃ new, setStatus false status .pauseOnRunning = some new ∧
      (status = .suspended → new ∈ own.statuses completed false true) ∧
      (status ≠ .suspended → new = status) := by
  cases own with
  | ready kind | suspendRead kind | suspend kind =>
      cases kind <;> cases completed <;>
        simp_all [statuses, enteringStatuses, awakeStatuses, returnedStatuses, setStatus]
  | parked kind | removeAwaiter kind | setRunning kind =>
      cases kind <;> simp [statuses, leavingStatuses] at h <;>
        (try rcases h with rfl | rfl | rfl) <;> simp_all [setStatus, statuses, leavingStatuses]
  | _ =>
      cases completed <;> simp_all [statuses, awakeStatuses, returnedStatuses, setStatus]

theorem statuses_resumed (h : status ∈ own.statuses completed abandoned true) :
    ∃ new, setStatus false status .resumed = some new ∧
      new ∈ own.statuses completed abandoned false := by
  cases abandoned <;> cases own with
  | ready kind | suspendRead kind | suspend kind =>
      cases kind <;> cases completed <;>
        simp_all [statuses, enteringStatuses, awakeStatuses, returnedStatuses]
  | parked kind | removeAwaiter kind | setRunning kind =>
      cases kind <;> simp_all [statuses, leavingStatuses, setStatus]
  | _ =>
      cases completed <;> simp_all [statuses, awakeStatuses, returnedStatuses, setStatus]

theorem statuses_abandon (h : status ∈ own.statuses completed false false) :
    ∃ new, setStatus false status .abandoned = some new ∧
      new ∈ own.statuses completed true false := by
  cases own with
  | ready kind | suspendRead kind | suspend kind =>
      cases kind <;> cases completed <;>
        simp_all [statuses, enteringStatuses, awakeStatuses, returnedStatuses, setStatus]
  | parked kind | removeAwaiter kind | setRunning kind =>
      cases kind <;> simp [statuses, leavingStatuses] at h <;>
        rcases h with rfl | rfl | rfl <;> simp_all [setStatus, statuses, leavingStatuses]
  | _ =>
      cases completed <;> simp_all [statuses, awakeStatuses, returnedStatuses, setStatus]

theorem statuses_setRunning (completed : Bool)
    (h : status ∈ leavingStatuses kind abandoned pausing) :
    ∃ new, setStatus false status .running = some new ∧
      new ∈ (if status = .pauseOnRunning then spinPaused else body).statuses
        completed abandoned pausing := by
  cases abandoned <;> cases pausing <;> cases kind <;> simp [leavingStatuses] at h <;>
    (try rcases h with rfl | rfl | rfl) <;>
    simp_all [setStatus, statuses, awakeStatuses]

theorem statuses_suspended (hk : kind ≠ .final)
    (h : status ∈ enteringStatuses kind completed abandoned pausing) :
    ∃ new, setStatus false status .suspended = some new ∧
      new ∈ leavingStatuses kind abandoned pausing := by
  cases abandoned <;> cases pausing <;> cases kind <;>
    simp_all [setStatus, leavingStatuses, enteringStatuses, awakeStatuses]

theorem statuses_finalSuspended (h : status ∈ returnedStatuses completed abandoned pausing) :
    ∃ new, setStatus true status .suspended = some new ∧
      new ∈ (if status = .abandonedCompleted then destroying else finalSuspended).statuses
        completed abandoned pausing := by
  cases completed <;> cases abandoned <;> cases pausing <;>
    simp_all [setStatus, statuses, returnedStatuses]

theorem statuses_yielded (completed : Bool) (h : status ∈ awakeStatuses abandoned pausing) :
    ∃ new, setStatus false status .yielded = some new ∧
      new ∈ enteringStatuses .yield completed abandoned pausing := by
  cases abandoned <;> cases pausing <;>
    simp_all [setStatus, enteringStatuses, awakeStatuses]

theorem statuses_returned (h : status ∈ awakeStatuses abandoned pausing) :
    ∃ new, setStatus false status .returned = some new ∧
      new ∈ returnedStatuses false abandoned pausing := by
  cases abandoned <;> cases pausing <;>
    simp_all [setStatus, returnedStatuses, awakeStatuses]

theorem statuses_completed (h : status ∈ returnedStatuses false abandoned pausing) :
    ∃ new, setStatus false status .completed = some new ∧
      new ∈ returnedStatuses true abandoned pausing := by
  cases abandoned <;> cases pausing <;> simp_all [setStatus, returnedStatuses]

/-- The completion step after the coroutine went on to its final suspension. -/
theorem statuses_asyncCompleted (h : status ∈ own.statuses false abandoned pausing)
    (hc : own.allowsCompletion .setCompleted = true) :
    ∃ new, setStatus false status .completed = some new ∧
      new ∈ own.statuses true abandoned pausing ∧
      (status = .abandonedFinalSuspended ↔ own = .finalSuspended ∧ abandoned = true) := by
  cases own with
  | ready kind | suspendRead kind | suspend kind =>
      cases kind <;> cases abandoned <;> cases pausing <;>
        simp_all [allowsCompletion, statuses, enteringStatuses, returnedStatuses, setStatus]
  | finalSuspended =>
      cases abandoned <;> cases pausing <;> simp_all [statuses, setStatus]
  | _ => simp [allowsCompletion] at hc

theorem enteringStatuses_subset (hk : kind ≠ .final)
    (h : status ∈ enteringStatuses kind completed abandoned pausing) :
    status ∈ leavingStatuses kind abandoned pausing := by
  cases abandoned <;> cases pausing <;> cases kind <;>
    simp_all [leavingStatuses, enteringStatuses, awakeStatuses]

theorem not_suspended_of_abandoned (h : status ∈ own.statuses completed true pausing) :
    status ≠ .suspended := by
  rintro rfl
  cases own with
  | ready kind | suspendRead kind | suspend kind | parked kind | removeAwaiter kind
  | setRunning kind =>
      cases kind <;> cases completed <;> cases pausing <;>
        simp_all [statuses, enteringStatuses, leavingStatuses, awakeStatuses, returnedStatuses]
  | _ =>
      cases completed <;> cases pausing <;>
        simp_all [statuses, awakeStatuses, returnedStatuses]

theorem finalSuspended_of_completed
    (h : .completedFinalSuspended ∈ own.statuses completed false pausing) :
    own = .finalSuspended ∧ completed = true ∧ pausing = false := by
  cases own with
  | ready kind | suspendRead kind | suspend kind | parked kind | removeAwaiter kind
  | setRunning kind =>
      cases kind <;> cases completed <;> cases pausing <;>
        simp_all [statuses, enteringStatuses, leavingStatuses, awakeStatuses, returnedStatuses]
  | _ =>
      cases completed <;> cases pausing <;>
        simp_all [statuses, awakeStatuses, returnedStatuses]

theorem destroying_of_abandonedCompleted (hs : status = .abandonedCompleted)
    (h : status ∈ returnedStatuses completed abandoned pausing) :
    status ∈ destroying.statuses completed abandoned pausing := by
  subst hs
  cases completed <;> cases abandoned <;> cases pausing <;>
    simp_all [statuses, returnedStatuses]

theorem spinPaused_done (hs : status ≠ .paused)
    (h : status ∈ spinPaused.statuses completed abandoned pausing) :
    status ∈ awakeStatuses abandoned pausing := by
  cases abandoned <;> cases pausing <;> simp_all [statuses, awakeStatuses]

theorem finished_of_abandonedCompleted {completion : CompletionPc}
    (hs : status = .abandonedCompleted)
    (h : status ∈ returnedStatuses completion.isCompleted abandoned pausing)
    (hc : (ready .final).allowsCompletion completion = true) :
    destroying.allowsCompletion completion = true := by
  subst hs
  cases completion <;> cases abandoned <;> cases pausing <;>
    simp_all [returnedStatuses, allowsCompletion, CompletionPc.isCompleted]

theorem finalSuspended_allows {completion : CompletionPc}
    (hc : (ready .final).allowsCompletion completion = true) :
    finalSuspended.allowsCompletion completion = true := by
  cases completion <;> simp_all [allowsCompletion]

/-- The completed-state task is on its way and may go on. -/
theorem allows_after_waiting {completion completion' : CompletionPc}
    (hc : own.allowsCompletion completion = true)
    (h : completion = .waiting ∧ completion' = .signalOwner ∨
      completion = .signalOwner ∧ completion' = .setCompleted ∨
      completion = .setCompleted ∧ completion' = .finished ∨
      completion = .destroying ∧ completion' = .finished) :
    own.allowsCompletion completion' = true := by
  rcases h with ⟨rfl, rfl⟩ | ⟨rfl, rfl⟩ | ⟨rfl, rfl⟩ | ⟨rfl, rfl⟩ <;> cases own with
  | ready kind | suspendRead kind | suspend kind => cases kind <;> simp_all [allowsCompletion]
  | _ => simp_all [allowsCompletion]

theorem suspended_mem_of_parked (hown : own = parked .initial ∨ own = parked .yield)
    (hs : status = .notStarted ∨ status = .yieldedSuspended)
    (h : status ∈ own.statuses completed abandoned pausing) :
    .suspended ∈ own.statuses completed abandoned pausing := by
  rcases hown with rfl | rfl <;> rcases hs with rfl | rfl <;> cases abandoned <;> cases pausing <;>
    simp_all [statuses, leavingStatuses]

end OwnPc

end Tables

structure Inv (s : State) : Prop where
  status : s.status ∈ s.own.statuses s.completion.isCompleted s.holder.hasAbandoned
    s.holder.isPausing
  completion : s.own.allowsCompletion s.completion = true
  holder : s.holder.isStray = false
  consumer : s.consumer ≠ .idle → s.holder.holdsHandle = true ∧
    (s.own = .parked .initial ∨ s.own = .parked .yield)
  mark : ∀ expected, s.consumer = .mark expected →
    s.status = expected ∧ (expected = .notStarted ∨ expected = .yieldedSuspended)

section Steps

variable {s s' : State}

theorem Inv.moveOwn (hi : Inv s) (hidle : s.consumer = .idle)
    (hstatus : s'.status ∈ s'.own.statuses s'.completion.isCompleted s.holder.hasAbandoned
      s.holder.isPausing)
    (hcompletion : s'.own.allowsCompletion s'.completion = true) (hholder : s'.holder = s.holder)
    (hconsumer : s'.consumer = s.consumer) : Inv s' where
  status := hholder ▸ hstatus
  completion := hcompletion
  holder := hholder ▸ hi.holder
  consumer := fun h => absurd (hconsumer.trans hidle) h
  mark := fun e h => by
    rw [hconsumer, hidle] at h
    cases h

theorem Inv.idle (hi : Inv s) (hinitial : s.own ≠ .parked .initial)
    (hyield : s.own ≠ .parked .yield) : s.consumer = .idle := by
  by_contra h
  exact (hi.consumer h).2.elim hinitial hyield

theorem Inv.bodyStep {b : BodyStep} (hi : Inv s) (hown : s.own = .body)
    (h : bodyStep s b = some s') : Inv s' ∧ s'.aborted = s.aborted := by
  have hidle := hi.idle (by simp [hown]) (by simp [hown])
  have hstatus := hi.status
  have hcompletion := hi.completion
  rw [hown] at hstatus hcompletion
  cases b with
  | await kind =>
      obtain ⟨hk, he⟩ := Option.ite_none_right_eq_some.mp h
      cases he
      split
      next => exact ⟨hi, rfl⟩
      next =>
        refine ⟨hi.moveOwn hidle ?_ ?_ rfl rfl, rfl⟩
        · cases kind <;> first | exact hstatus | cases hk
        · cases kind <;> first | exact hcompletion | cases hk
  | yield =>
      obtain ⟨_, he⟩ := Option.ite_none_right_eq_some.mp h
      cases he
      exact ⟨hi.moveOwn hidle hstatus hcompletion rfl rfl, rfl⟩
  | finish =>
      cases h
      exact ⟨hi.moveOwn hidle hstatus hcompletion rfl rfl, rfl⟩

/-- A parked coroutine takes no step of its own. -/
theorem ownStep_parked {b₁ b₂ b₃ b₄ : Bool} {kind : AwaiterKind}
    (h : Lifecycle.ownStep s b₁ b₂ b₃ b₄ s.own = some s') : s.own ≠ .parked kind := by
  intro hown
  rw [hown] at h
  cases h

theorem Inv.ownStep {b₁ b₂ b₃ b₄ : Bool} (hi : Inv s)
    (h : ownStep s b₁ b₂ b₃ b₄ s.own = some s') : Inv s' ∧ s'.aborted = s.aborted := by
  have hstatus := hi.status
  have hcompletion := hi.completion
  have hidle := hi.idle (ownStep_parked h) (ownStep_parked h)
  cases hown : s.own with
  | ready kind =>
      rw [hown] at h hstatus hcompletion
      cases h
      refine ⟨hi.moveOwn hidle ?_ ?_ rfl rfl, rfl⟩ <;> by_cases hk : kind = .final
      · subst hk
        simp only [if_true, AwaiterKind.onReady_final]
        split
        next hs => exact OwnPc.destroying_of_abandonedCompleted hs hstatus
        next => exact hstatus
      · simp only [if_neg hk]
        split
        next => exact OwnPc.enteringStatuses_subset hk hstatus
        next => exact hstatus
      · subst hk
        simp only [if_true, AwaiterKind.onReady_final]
        split
        next hs => exact OwnPc.finished_of_abandonedCompleted hs hstatus hcompletion
        next => exact hcompletion
      · simp only [if_neg hk]
        split
        next => cases kind <;> first | exact hcompletion | exact absurd rfl hk
        next => cases kind <;> exact hcompletion
  | suspendRead kind =>
      rw [hown] at h hstatus hcompletion
      cases h
      refine ⟨hi.moveOwn hidle hstatus ?_ rfl rfl, rfl⟩
      cases kind <;> exact hcompletion
  | suspend kind isCancelled shouldCancelAbandoned =>
      rw [hown] at h hstatus hcompletion
      cases h
      by_cases hk : kind = .final
      · subst hk
        obtain ⟨new, hnew, hmem⟩ := OwnPc.statuses_finalSuspended hstatus
        simp only [if_true, AwaiterKind.onSuspend_final, decide_true, State.setStatus_eq hnew]
        refine ⟨hi.moveOwn hidle hmem ?_ rfl rfl, trivial⟩
        split
        next hs => exact OwnPc.finished_of_abandonedCompleted hs hstatus hcompletion
        next => exact OwnPc.finalSuspended_allows hcompletion
      · obtain ⟨new, hnew, hmem⟩ := OwnPc.statuses_suspended hk hstatus
        simp only [hk, decide_false, State.setStatus_eq hnew, if_false]
        refine ⟨hi.moveOwn hidle ?_ ?_ rfl rfl, trivial⟩ <;> split
        · exact hmem
        · exact hmem
        · cases kind <;> first | exact hcompletion | exact absurd rfl hk
        · cases kind <;> first | exact hcompletion | exact absurd rfl hk
  | removeAwaiter kind =>
      rw [hown] at h hstatus hcompletion
      cases h
      exact ⟨hi.moveOwn hidle hstatus hcompletion rfl rfl, rfl⟩
  | setRunning kind =>
      rw [hown] at h hstatus hcompletion
      cases h
      obtain ⟨new, hnew, hmem⟩ := OwnPc.statuses_setRunning s.completion.isCompleted hstatus
      rw [State.setStatus_eq hnew]
      refine ⟨hi.moveOwn hidle hmem ?_ rfl rfl, rfl⟩
      split <;> exact hcompletion
  | spinPaused =>
      rw [hown] at h hstatus hcompletion
      cases h
      split
      next => exact ⟨hi.moveOwn hidle hstatus hcompletion rfl rfl, rfl⟩
      next hs =>
        exact ⟨hi.moveOwn hidle (OwnPc.spinPaused_done hs hstatus) hcompletion rfl rfl, rfl⟩
  | setYielded =>
      rw [hown] at h hstatus hcompletion
      cases h
      obtain ⟨new, hnew, hmem⟩ := OwnPc.statuses_yielded s.completion.isCompleted hstatus
      rw [State.setStatus_eq hnew]
      exact ⟨hi.moveOwn hidle hmem hcompletion rfl rfl, rfl⟩
  | setReturned =>
      rw [hown] at h hstatus hcompletion
      cases h
      obtain ⟨new, hnew, hmem⟩ := OwnPc.statuses_returned hstatus
      have hnone : s.completion = .none := by simpa [OwnPc.allowsCompletion] using hcompletion
      rw [State.setStatus_eq hnew]
      refine ⟨hi.moveOwn hidle ?_ hcompletion rfl rfl, rfl⟩
      change new ∈ OwnPc.returnedStatuses s.completion.isCompleted _ _
      rw [hnone]
      exact hmem
  | countCheck =>
      rw [hown] at h hstatus hcompletion
      cases h
      refine ⟨hi.moveOwn hidle ?_ ?_ rfl rfl, rfl⟩
      · split <;> exact hstatus
      · split <;> exact hcompletion
  | setCompleted =>
      rw [hown] at h hstatus hcompletion
      cases h
      have hnone : s.completion = .none := by simpa [OwnPc.allowsCompletion] using hcompletion
      rw [hnone] at hstatus
      obtain ⟨new, hnew, hmem⟩ := OwnPc.statuses_completed hstatus
      rw [State.setStatus_eq hnew]
      exact ⟨hi.moveOwn hidle hmem rfl rfl rfl, rfl⟩
  | countDownLast =>
      rw [hown] at h hstatus hcompletion
      cases h
      exact ⟨hi.moveOwn hidle hstatus hcompletion rfl rfl, rfl⟩
  | signalOwner =>
      rw [hown] at h hstatus hcompletion
      cases h
      have hfin : s.completion = .finished := by simpa [OwnPc.allowsCompletion] using hcompletion
      exact ⟨hi.moveOwn hidle hstatus (by simp [OwnPc.allowsCompletion, hfin]) rfl rfl, rfl⟩
  | enqueueCompletedState =>
      rw [hown] at h hstatus hcompletion
      cases h
      have hnone : s.completion = .none := by simpa [OwnPc.allowsCompletion] using hcompletion
      rw [hnone] at hstatus
      exact ⟨hi.moveOwn hidle hstatus rfl rfl rfl, rfl⟩
  | countDown =>
      rw [hown] at h hstatus hcompletion
      cases h
      have henq : s.completion = .enqueued := by simpa [OwnPc.allowsCompletion] using hcompletion
      rw [henq] at hstatus
      exact ⟨hi.moveOwn hidle hstatus rfl rfl rfl, rfl⟩
  | destroying =>
      rw [hown] at h hstatus hcompletion
      cases h
      exact ⟨hi.moveOwn hidle hstatus hcompletion rfl rfl, rfl⟩
  | _ =>
      rw [hown] at h
      cases h

theorem Inv.completionStep (hi : Inv s) (h : completionStep s s.completion = some s') :
    Inv s' ∧ s'.aborted = s.aborted := by
  have hstatus := hi.status
  have hcompletion := hi.completion
  have hidle : s.consumer = .idle := by
    refine hi.idle ?_ ?_ <;> intro hown <;> rw [hown] at hcompletion <;>
      cases hc : s.completion <;> simp_all [OwnPc.allowsCompletion, Lifecycle.completionStep]
  cases hc : s.completion with
  | waiting =>
      rw [hc] at h hstatus hcompletion
      cases h
      refine ⟨hi.moveOwn hidle hstatus ?_ rfl rfl, rfl⟩
      exact OwnPc.allows_after_waiting hcompletion (by simp)
  | signalOwner =>
      rw [hc] at h hstatus hcompletion
      cases h
      refine ⟨hi.moveOwn hidle hstatus ?_ rfl rfl, rfl⟩
      exact OwnPc.allows_after_waiting hcompletion (by simp)
  | setCompleted =>
      rw [hc] at h hstatus hcompletion
      cases h
      obtain ⟨new, hnew, hmem, hfin⟩ := OwnPc.statuses_asyncCompleted hstatus hcompletion
      rw [State.setStatus_eq hnew]
      refine ⟨hi.moveOwn hidle ?_ ?_ rfl rfl, rfl⟩ <;> split
      · exact hmem
      · exact hmem
      next hs =>
        change s.own.allowsCompletion .destroying = true
        rw [(hfin.mp hs).1]
        rfl
      next => exact OwnPc.allows_after_waiting hcompletion (by simp)
  | destroying =>
      rw [hc] at h hstatus hcompletion
      cases h
      refine ⟨hi.moveOwn hidle hstatus ?_ rfl rfl, rfl⟩
      exact OwnPc.allows_after_waiting hcompletion (by simp)
  | _ =>
      rw [hc] at h
      cases h

theorem Inv.consumerStep (hi : Inv s) (h : consumerStep s s.consumer = some s') :
    Inv s' ∧ s'.aborted = s.aborted := by
  have hstatus := hi.status
  have hcompletion := hi.completion
  cases hc : s.consumer with
  | idle =>
      rw [hc] at h
      cases h
  | mark expected =>
      obtain ⟨hholds, hown⟩ := hi.consumer (by simp [hc])
      obtain ⟨he, hexp⟩ := hi.mark expected hc
      rw [hc] at h
      simp only [Lifecycle.consumerStep, if_pos he, Option.some.injEq] at h
      subst h
      refine ⟨⟨?_, hcompletion, hi.holder, fun _ => ⟨hholds, hown⟩, fun e h => by cases h⟩, rfl⟩
      exact OwnPc.suspended_mem_of_parked hown (by rw [← he] at hexp; exact hexp) hstatus
  | start =>
      obtain ⟨_, hown⟩ := hi.consumer (by simp [hc])
      rw [hc] at h
      rcases hown with hown | hown <;> simp only [Lifecycle.consumerStep, hown] at h <;> cases h <;>
        rw [hown] at hstatus hcompletion
      · exact ⟨⟨hstatus, hcompletion, hi.holder, fun h => absurd rfl h, fun e h => by cases h⟩, rfl⟩
      · exact ⟨⟨hstatus, hcompletion, hi.holder, fun h => absurd rfl h, fun e h => by cases h⟩, rfl⟩

theorem Inv.moveHolder (hi : Inv s) (hown : s'.own = s.own)
    (hcompletion : s'.completion = s.completion) (hconsumer : s'.consumer = s.consumer)
    (hstatus : s'.status ∈ s.own.statuses s.completion.isCompleted s'.holder.hasAbandoned
      s'.holder.isPausing) (hstray : s'.holder.isStray = false)
    (hholds : s.holder.holdsHandle = true → s'.holder.holdsHandle = true)
    (hmark : s.status = .notStarted ∨ s.status = .yieldedSuspended →
      s.holder.holdsHandle = true → s'.status = s.status) : Inv s' where
  status := by rw [hown, hcompletion]; exact hstatus
  completion := by rw [hown, hcompletion]; exact hi.completion
  holder := hstray
  consumer := fun h => by
    rw [hown]
    rw [hconsumer] at h
    exact (hi.consumer h).imp_left hholds
  mark := fun e h => by
    rw [hconsumer] at h
    obtain ⟨he, hexp⟩ := hi.mark e h
    refine ⟨?_, hexp⟩
    rw [hmark (by rw [he]; exact hexp) (hi.consumer (by simp [h])).1, he]

theorem Inv.goHolder {q : HolderPc} (hi : Inv s) (hq : s.holder = q) (hown : s'.own = s.own)
    (hcompletion : s'.completion = s.completion) (hconsumer : s'.consumer = s.consumer)
    (hstatus : s'.status = s.status)
    (hflags : s'.holder.hasAbandoned = q.hasAbandoned ∧ s'.holder.isPausing = q.isPausing ∧
      s'.holder.holdsHandle = q.holdsHandle)
    (hstray : s'.holder.isStray = false) : Inv s' := by
  subst hq
  refine hi.moveHolder hown hcompletion hconsumer ?_ hstray (fun h => hflags.2.2.trans h)
    fun _ _ => hstatus
  rw [hstatus, hflags.1, hflags.2.1]
  exact hi.status

/-- A canceller asks a coroutine to pause that has completed and finally
suspended since its status was read. -/
def pausesFinished (s : State) (a : Action) : Bool :=
  match a, s.holder with
  | .holder _ _ _, .pause _ => s.status = .completedFinalSuspended
  | _, _ => false

theorem Inv.pause {caller : Caller} (hi : Inv s) (hh : s.holder = .pause caller)
    (hf : s.status ≠ .completedFinalSuspended) {s' : State}
    (h : s' = s.setStatus false .pauseOnRunning fun prevStatus s =>
      { s with holder :=
          if prevStatus = .suspended then .takeAwaiter caller false else caller.return }) :
    Inv s' ∧ s'.aborted = s.aborted := by
  have hstatus := hi.status
  have hstray := hi.holder
  rw [hh] at hstatus hstray
  have hcaller : caller ≠ .abandonedYield := by
    rintro rfl
    cases hstray
  have hflags : (HolderPc.pause caller).hasAbandoned = false := by
    cases caller <;> first | rfl | exact absurd rfl hcaller
  rw [hflags] at hstatus
  obtain ⟨new, hnew, hsusp, hsame⟩ := OwnPc.statuses_pause hstatus hf
  rw [State.setStatus_eq hnew] at h
  subst h
  by_cases hs : s.status = .suspended
  · simp only [if_pos hs]
    refine ⟨hi.moveHolder rfl rfl rfl ?_ ?_ ?_ ?_, trivial⟩
    · cases caller <;> first | exact hsusp hs | exact absurd rfl hcaller
    · cases caller <;> first | rfl | exact absurd rfl hcaller
    · rw [hh]
      cases caller <;> exact id
    · rw [hs]
      rintro (h | h) <;> cases h
  · obtain rfl := hsame hs
    simp only [if_neg hs]
    refine ⟨hi.goHolder hh rfl rfl rfl rfl ?_ ?_, trivial⟩
    · cases caller <;> exact ⟨rfl, rfl, rfl⟩
    · cases caller <;> rfl

theorem Inv.abandon (hi : Inv s) (hh : s.holder = .abandon) {s' : State}
    (h : s' = s.setStatus false .abandoned fun lastStatus s =>
      { s with holder :=
          if lastStatus = .completedFinalSuspended then .destroying
          else if s.kind = .task ∧ lastStatus = .notStarted then .destroying
          else if lastStatus = .yieldedSuspended then .yieldCount
          else .dropped }) :
    Inv s' ∧ s'.aborted = s.aborted := by
  have hstatus := hi.status
  rw [hh] at hstatus
  obtain ⟨new, hnew, hmem⟩ := OwnPc.statuses_abandon hstatus
  rw [State.setStatus_eq hnew] at h
  subst h
  refine ⟨hi.moveHolder rfl rfl rfl ?_ ?_ ?_ ?_, rfl⟩
  · change new ∈ s.own.statuses _ (HolderPc.hasAbandoned (ite ..)) (HolderPc.isPausing (ite ..))
    split_ifs <;> exact hmem
  · change HolderPc.isStray (ite ..) = false
    split_ifs <;> rfl
  · rw [hh]
    intro h
    cases h
  · rw [hh]
    intro _ h
    cases h

theorem Inv.holderStep {b₁ b₂ b₃ : Bool} (hi : Inv s)
    (h : holderStep s b₁ b₂ b₃ s.holder = some s') :
    Inv s' ∧ (s'.aborted = true →
      s.aborted = true ∨ pausesFinished s (.holder b₁ b₂ b₃) = true) := by
  have hstatus := hi.status
  have hstray := hi.holder
  cases hh : s.holder with
  | cancelCheck caller =>
      rw [hh] at h
      cases h
      refine ⟨hi.goHolder hh rfl rfl rfl rfl ?_ ?_, .inl⟩
      · cases caller <;> split <;> exact ⟨rfl, rfl, rfl⟩
      · cases caller <;> split <;> rfl
  | cancelMark caller =>
      rw [hh] at h
      cases h
      refine ⟨hi.goHolder hh rfl rfl rfl rfl ?_ ?_, .inl⟩
      · cases caller <;> exact ⟨rfl, rfl, rfl⟩
      · cases caller <;> rfl
  | cancelStatus caller =>
      rw [hh] at h hstatus
      cases h
      refine ⟨hi.goHolder hh rfl rfl rfl rfl ?_ ?_, .inl⟩
      · cases caller <;> split <;> exact ⟨rfl, rfl, rfl⟩
      · split
        next hs =>
          cases caller <;> first | rfl | exact absurd hs (OwnPc.not_suspended_of_abandoned hstatus)
        next => cases caller <;> rfl
  | cancelEmpty caller =>
      rw [hh] at h hstray
      cases h
      refine ⟨hi.goHolder hh rfl rfl rfl rfl ?_ ?_, .inl⟩
      · cases caller <;> split <;> exact ⟨rfl, rfl, rfl⟩
      · cases caller <;> split <;> first | rfl | cases hstray
  | pause caller =>
      rw [hh] at h
      by_cases hf : s.status = .completedFinalSuspended
      · have habort : s' = { s with aborted := true } := by
          simpa [Lifecycle.holderStep, State.setStatus, hf, CoroutineStatus.setStatus] using h.symm
        subst habort
        exact ⟨⟨hi.status, hi.completion, hi.holder, hi.consumer, hi.mark⟩,
          fun _ => .inr (by simp [pausesFinished, hh, hf])⟩
      · obtain ⟨hi', ha⟩ := hi.pause hh hf (Option.some.inj h).symm
        exact ⟨hi', fun h => .inl (ha ▸ h)⟩
  | takeAwaiter caller found =>
      rw [hh] at h hstray
      simp only [Lifecycle.holderStep, Option.some.injEq] at h
      subst h
      split
      · refine ⟨hi.goHolder hh rfl rfl rfl rfl ?_ ?_, .inl⟩
        · cases caller <;> exact ⟨rfl, rfl, rfl⟩
        · cases caller <;> first | rfl | cases hstray
      · refine ⟨hi.goHolder hh rfl rfl rfl rfl ?_ ?_, .inl⟩
        · cases caller <;> exact ⟨rfl, rfl, rfl⟩
        · cases caller <;> first | rfl | cases hstray
  | tryAwaiter caller found =>
      rw [hh] at h hstray
      cases h
      refine ⟨hi.goHolder hh rfl rfl rfl rfl ?_ ?_, .inl⟩
      · cases caller <;> exact ⟨rfl, rfl, rfl⟩
      · cases caller <;> first | rfl | cases hstray
  | checkPaused caller found =>
      rw [hh] at h hstray
      cases h
      refine ⟨hi.goHolder hh rfl rfl rfl rfl ?_ ?_, .inl⟩
      · cases caller <;> split <;> exact ⟨rfl, rfl, rfl⟩
      · cases caller <;> split <;> first | rfl | cases hstray
  | resume caller =>
      rw [hh] at h hstatus hstray
      cases h
      obtain ⟨new, hnew, hmem⟩ := OwnPc.statuses_resumed hstatus
      rw [State.setStatus_eq hnew]
      refine ⟨hi.moveHolder rfl rfl rfl ?_ ?_ ?_ ?_, .inl⟩
      · cases caller <;> exact hmem
      · cases caller <;> rfl
      · rw [hh]
        cases caller <;> exact id
      · rintro (h | h) _ <;> simp [h, CoroutineStatus.setStatus] at hnew
  | dropStatus =>
      rw [hh] at h hstatus
      cases h
      refine ⟨hi.moveHolder rfl rfl rfl ?_ ?_ ?_ fun _ _ => rfl, .inl⟩
      · split
        next hs =>
          rw [hs] at hstatus ⊢
          obtain ⟨hown, hc, _⟩ := OwnPc.finalSuspended_of_completed hstatus
          rw [hown, hc]
          simp [OwnPc.statuses, HolderPc.hasAbandoned, HolderPc.isPausing]
        next => exact hstatus
      · split <;> rfl
      · rw [hh]
        intro h
        cases h
  | dropShouldCancel =>
      rw [hh] at h
      cases h
      refine ⟨hi.goHolder hh rfl rfl rfl rfl ?_ ?_, .inl⟩
      · split <;> exact ⟨rfl, rfl, rfl⟩
      · split <;> rfl
  | abandon =>
      rw [hh] at h
      obtain ⟨hi', ha⟩ := hi.abandon hh (Option.some.inj h).symm
      exact ⟨hi', fun h => .inl (ha ▸ h)⟩
  | yieldCount =>
      rw [hh] at h
      cases h
      refine ⟨hi.goHolder hh rfl rfl rfl rfl ?_ ?_, .inl⟩
      · split <;> exact ⟨rfl, rfl, rfl⟩
      · split <;> rfl
  | scheduleYielded =>
      rw [hh] at h
      cases h
      have hidle : s.consumer = .idle := by
        by_contra hc
        have := (hi.consumer hc).1
        rw [hh] at this
        cases this
      have hcompletion := hi.completion
      rw [hh] at hstatus
      by_cases hown : s.own = .parked .yield
      · rw [hown] at hstatus hcompletion
        simp only [if_pos hown]
        exact ⟨⟨hstatus, hcompletion, rfl, fun h => absurd hidle h, hi.mark⟩, .inl⟩
      · simp only [if_neg hown]
        exact ⟨⟨hstatus, hcompletion, rfl, fun h => absurd hidle h, hi.mark⟩, .inl⟩
  | setOwner | unRef | clearValue | clearContinuation | destroying =>
      rw [hh] at h
      cases h
      exact ⟨hi.goHolder hh rfl rfl rfl rfl ⟨rfl, rfl, rfl⟩ rfl, .inl⟩
  | _ =>
      rw [hh] at h
      cases h

theorem Inv.step {a : Action} (hi : Inv s) (h : step s a = some s') :
    Inv s' ∧ (s'.aborted = true → pausesFinished s a = true) := by
  obtain ⟨halive, hs⟩ := Option.ite_none_left_eq_some.mp h
  have hlive : ∀ {s' : State}, Inv s' ∧ s'.aborted = s.aborted →
      Inv s' ∧ (s'.aborted = true → pausesFinished s a = true) :=
    fun h => ⟨h.1, fun ha => absurd (h.2.symm.trans ha) halive⟩
  cases a with
  | body b =>
      obtain ⟨hown, hb⟩ := Option.ite_none_right_eq_some.mp hs
      exact hlive (hi.bodyStep hown hb)
  | own => exact hlive (hi.ownStep hs)
  | schedule =>
      have hstatus := hi.status
      have hcompletion := hi.completion
      cases hown : s.own with
      | parked kind =>
          simp only [hown] at hs hstatus hcompletion
          obtain ⟨hk, he⟩ := Option.ite_none_right_eq_some.mp hs
          cases he
          have hidle : s.consumer = .idle := by
            refine hi.idle ?_ ?_ <;> rw [hown] <;> rintro ⟨⟩ <;> cases hk
          exact hlive ⟨hi.moveOwn hidle hstatus hcompletion rfl rfl, rfl⟩
      | _ => simp [hown] at hs
  | completion => exact hlive (hi.completionStep hs)
  | await =>
      obtain ⟨⟨_, hholds, hown⟩, he⟩ := Option.ite_none_right_eq_some.mp hs
      cases he
      refine hlive ⟨⟨hi.status, hi.completion, hi.holder, fun _ => ⟨hholds, ?_⟩, ?_⟩, rfl⟩
      · exact hown.imp And.left And.left
      · rintro e ⟨⟩
        exact ⟨rfl, hown.imp And.right And.right⟩
  | consumer => exact hlive (hi.consumerStep hs)
  | setCancelAbandoned b =>
      obtain ⟨_, he⟩ := Option.ite_none_right_eq_some.mp hs
      cases he
      exact hlive ⟨⟨hi.status, hi.completion, hi.holder, hi.consumer, hi.mark⟩, rfl⟩
  | cancel =>
      obtain ⟨hh, he⟩ := Option.ite_none_right_eq_some.mp hs
      cases he
      exact hlive ⟨hi.goHolder hh rfl rfl rfl rfl ⟨rfl, rfl, rfl⟩ rfl, rfl⟩
  | drop =>
      obtain ⟨⟨hh, hidle⟩, he⟩ := Option.ite_none_right_eq_some.mp hs
      cases he
      have hstatus := hi.status
      rw [hh] at hstatus
      exact hlive ⟨⟨hstatus, hi.completion, rfl, fun h => absurd hidle h, hi.mark⟩, rfl⟩
  | holder b₁ b₂ b₃ =>
      obtain ⟨hi', ha⟩ := hi.holderStep hs
      exact ⟨hi', fun h => (ha h).resolve_left halive⟩

theorem inv_initial {kind : TaskKind} {cancelAbandoned : Bool} :
    Inv (initial kind cancelAbandoned) where
  status := by cases kind <;> simp [initial, OwnPc.statuses, OwnPc.enteringStatuses,
    HolderPc.hasAbandoned, HolderPc.isPausing]
  completion := by cases kind <;> rfl
  holder := rfl
  consumer := fun h => absurd rfl h
  mark := fun _ h => by cases h

theorem inv_of_reach (hs : system.Reach s) : Inv s :=
  hs.invariant (fun _ h => by obtain ⟨_, _, _, rfl⟩ := h; exact inv_initial)
    fun _ _ _ hi ha => (hi.step ha).1

/-- The switch of `setStatus` accepts every transition that is requested in a
run in which no pause comes after the final suspension. -/
theorem setStatus_never_aborts
    (hs : system.ReachWhile (fun s a => pausesFinished s a = false) s) : s.aborted = false := by
  have h : Inv s ∧ s.aborted = false := by
    refine hs.invariant (I := fun s => Inv s ∧ s.aborted = false) (fun s h => ?_)
      fun s a s' hi hg ha => ?_
    · obtain ⟨_, _, _, rfl⟩ := h
      exact ⟨inv_initial, rfl⟩
    · obtain ⟨hi', habort⟩ := hi.1.step ha
      refine ⟨hi', ?_⟩
      by_contra hne
      rw [habort (by simpa using hne)] at hg
      cases hg
  exact h.2

end Steps

/-- A coroutine that awaits an event, and a canceller that has seen it there. -/
def cancelledWhileSuspended : List Action :=
  [.own true true false false, .own true true false false, .own true true false false, .schedule,
    .own true true false false, .own true true false false, .body (.await .event),
    .own true true false false, .own true true false false, .own true true false false,
    .cancel, .holder true true false, .holder true true false, .holder true true false,
    .holder true true false]

/-- Resumed by the event, it runs to its final suspension as the last unit. -/
def runsToTheEnd : List Action :=
  [.schedule, .own true true false false, .own true true false false, .body .finish,
    .own true true false false, .own true true false true, .own true true false false,
    .own true true false false, .own true true false false, .own true true false false,
    .own true true false false, .own true true false false]

/-- The pause meets the suspended coroutine. -/
theorem setStatus_never_aborts_paused : ∃ s : State,
    s.status = .pauseOnRunning ∧ s.aborted = false := by
  let run := cancelledWhileSuspended ++ [.holder true true false]
  let M := system.restrict fun s a => pausesFinished s a = false
  obtain ⟨s, hr, hstatus⟩ := StepSystem.Reach.exists_of_exec (M := M)
    (P := fun s => s.status = .pauseOnRunning) (s := initial .async true)
    (.start ⟨_, _, by simp, rfl⟩) run (by decide)
  exact ⟨s, hstatus, setStatus_never_aborts hr.reachWhile⟩

/-- The pause comes when the coroutine has completed and finally suspended. -/
theorem setStatus_aborts_after_final_suspension :
    ¬ ∀ s, system.Reach s → s.aborted = false := by
  intro h
  let run := cancelledWhileSuspended ++ runsToTheEnd ++ [.holder true true false]
  obtain ⟨s, hr, haborted⟩ := StepSystem.Reach.exists_of_exec (M := system)
    (P := fun s => s.aborted = true) (s := initial .async true) (.start ⟨_, _, by simp, rfl⟩) run
    (by decide)
  rw [h s hr] at haborted
  cases haborted

end LevelzAsync.Lifecycle
