import LevelzAsync.LifecycleInvariant

/-!
# The frame is destroyed once, by the last of three parties

The coroutine finishes with its final suspension, the completion step with
`setStatus(Completed)`, the holder with its drop. Each looks only at the status
it found, and the table of statuses shows that exactly the last one finds that
the other two are done.
-/

namespace LevelzAsync.Lifecycle

open CoroutineStatus

namespace OwnPc

def isFinished : OwnPc → Bool
  | finalSuspended | destroying | destroyed => true
  | _ => false

end OwnPc

namespace State

/-- The parties that have decided to destroy the frame and not done so yet. -/
def destroyers (s : State) : ℕ :=
  (if s.own = .destroying then 1 else 0) + (if s.completion = .destroying then 1 else 0) +
    (if s.holder = .destroying then 1 else 0)

def allDone (s : State) : Bool :=
  s.own.isFinished && s.completion.isCompleted && s.holder.hasAbandoned

end State

/-- The last handle is dropped while the coroutine is running, suspended or
returned, not while it waits at a `co_yield` or, for a task, before its start. -/
def dropsStarted (s : State) (a : Action) : Bool :=
  match a, s.holder with
  | .holder _ _ _, .abandon =>
      s.status ≠ .yieldedSuspended ∧ ¬(s.kind = .task ∧ s.status = .notStarted)
  | _, _ => true

structure Once (s : State) : Prop where
  count : s.destroyed + s.destroyers = if s.allDone = true then 1 else 0
  dropped : s.holder.hasAbandoned = true → s.holder = .destroying ∨ s.holder = .dropped

section Steps

variable {s s' : State}

/-- A coroutine before its final suspension leaves the frame in place. -/
theorem Once.unfinished (ho : Once s) (hi : Inv s) (hi' : Inv s')
    (hown : s.own.isFinished = false) (hown' : s'.own.isFinished = false)
    (hdestroyed : s'.destroyed = s.destroyed) (hholder : s'.holder = s.holder) : Once s' := by
  have hfree : ∀ {s : State}, Inv s → s.own.isFinished = false →
      s.own ≠ .destroying ∧ s.completion ≠ .destroying := by
    intro s hi h
    have hc := hi.completion
    refine ⟨by rintro h'; simp [h', OwnPc.isFinished] at h, fun h' => ?_⟩
    rw [h'] at hc
    cases hp : s.own with
    | ready kind | suspendRead kind | suspend kind =>
        cases kind <;> simp_all [OwnPc.allowsCompletion]
    | _ => simp_all [OwnPc.allowsCompletion, OwnPc.isFinished]
  have h := hfree hi hown
  have h' := hfree hi' hown'
  refine ⟨?_, fun ha => hholder ▸ ho.dropped (hholder ▸ ha)⟩
  have hcount := ho.count
  simp only [State.destroyers, State.allDone, hown, hown', h, h', hdestroyed, hholder,
    if_false, Bool.false_and, Bool.false_eq_true] at hcount ⊢
  exact hcount

/-- The last of the three finds the other two done and destroys the frame. -/
theorem Once.last (ho : Once s) (hnot : s.allDone = false) (hdone : s'.allDone = true)
    (hdestroyed : s'.destroyed = s.destroyed) (hdestroyers : s'.destroyers = s.destroyers + 1)
    (hholder : s'.holder.hasAbandoned = true → s'.holder = .destroying ∨ s'.holder = .dropped) :
    Once s' := by
  refine ⟨?_, hholder⟩
  have hcount := ho.count
  rw [hnot, if_neg Bool.false_ne_true] at hcount
  rw [hdone, if_pos rfl]
  omega

theorem Once.stay (ho : Once s) (hdone : s'.allDone = s.allDone)
    (hdestroyed : s'.destroyed + s'.destroyers = s.destroyed + s.destroyers)
    (hholder : s'.holder.hasAbandoned = true → s'.holder = .destroying ∨ s'.holder = .dropped) :
    Once s' := by
  refine ⟨?_, hholder⟩
  rw [hdestroyed, hdone]
  exact ho.count

theorem OwnPc.finalSuspended_not_done {status : CoroutineStatus}
    {completed abandoned pausing : Bool}
    (h : status ∈ returnedStatuses completed abandoned pausing)
    (hs : status ≠ .abandonedCompleted) : (completed && abandoned) = false := by
  cases completed <;> cases abandoned <;> cases pausing <;> simp_all [returnedStatuses]

theorem OwnPc.finished_not_done {own : OwnPc} {status : CoroutineStatus}
    {completed pausing : Bool} (h : status ∈ own.statuses completed false pausing)
    (hs : status ≠ .completedFinalSuspended) : (own.isFinished && completed) = false := by
  cases own <;> cases completed <;> cases pausing <;> simp_all [statuses, isFinished]

theorem OwnPc.destroying_done {status : CoroutineStatus} {completed abandoned pausing : Bool}
    (h : status ∈ destroying.statuses completed abandoned pausing) :
    completed = true ∧ abandoned = true := by
  cases completed <;> cases abandoned <;> simp_all [statuses]

/-- What a step of the coroutine does to the frame: nothing before its final
suspension, which decides whether it is the last party. -/
theorem Inv.ownStep_frame {b₁ b₂ b₃ b₄ : Bool} (hi : Inv s)
    (h : Lifecycle.ownStep s b₁ b₂ b₃ b₄ s.own = some s') :
    s'.holder = s.holder ∧
      (s.own.isFinished = false ∧ s'.destroyed = s.destroyed ∧
          (s'.own.isFinished = false ∨ s'.completion = s.completion ∧
            (s'.own = .destroying ∨ s'.own = .finalSuspended ∧
              (s.completion.isCompleted && s.holder.hasAbandoned) = false)) ∨
        s.own = .destroying ∧ s' = { s.destroy with own := .destroyed }) := by
  have hstatus := hi.status
  cases hown : s.own with
  | ready kind =>
      rw [hown] at h
      cases h
      refine ⟨rfl, .inl ⟨rfl, rfl, ?_⟩⟩
      by_cases hk : kind = .final
      · subst hk
        simp only [if_true]
        split
        · exact .inr ⟨by trivial, .inl rfl⟩
        · exact .inl rfl
      · simp only [if_neg hk]
        split <;> exact .inl rfl
  | suspend kind =>
      rw [hown] at h hstatus
      simp only [Lifecycle.ownStep, State.setStatus, Option.some.injEq] at h
      split at h
      next new hnew =>
        subst h
        refine ⟨rfl, .inl ⟨rfl, rfl, ?_⟩⟩
        by_cases hk : kind = .final
        · subst hk
          simp only [if_true, AwaiterKind.onSuspend_final]
          split
          next => exact .inr ⟨by trivial, .inl rfl⟩
          next hs => exact .inr ⟨by trivial, .inr ⟨rfl, OwnPc.finalSuspended_not_done hstatus hs⟩⟩
        · simp only [if_neg hk]
          split <;> exact .inl rfl
      next =>
        subst h
        exact ⟨rfl, .inl ⟨rfl, rfl, .inl (by simp [hown, OwnPc.isFinished])⟩⟩
  | destroying =>
      rw [hown] at h
      cases h
      exact ⟨rfl, .inr ⟨rfl, rfl⟩⟩
  | suspendRead | removeAwaiter | countDownLast | signalOwner | enqueueCompletedState
  | countDown =>
      rw [hown] at h
      cases h
      exact ⟨rfl, .inl ⟨rfl, rfl, .inl rfl⟩⟩
  | spinPaused | countCheck =>
      rw [hown] at h
      cases h
      refine ⟨rfl, .inl ⟨rfl, rfl, .inl ?_⟩⟩
      split <;> rfl
  | setRunning | setYielded | setReturned | setCompleted =>
      rw [hown] at h
      simp only [Lifecycle.ownStep, State.setStatus, Option.some.injEq] at h
      split at h <;> subst h <;> refine ⟨rfl, .inl ⟨rfl, rfl, .inl ?_⟩⟩
      · first | rfl | (split <;> rfl)
      · rw [hown]
        rfl
  | _ =>
      rw [hown] at h
      cases h

theorem Once.ownStep {b₁ b₂ b₃ b₄ : Bool} (ho : Once s) (hi : Inv s) (hi' : Inv s')
    (h : Lifecycle.ownStep s b₁ b₂ b₃ b₄ s.own = some s') : Once s' := by
  obtain ⟨hh, ⟨hfin, hd, hown'⟩ | ⟨hown, rfl⟩⟩ := hi.ownStep_frame h
  · have hdropped : s'.holder.hasAbandoned = true →
        s'.holder = .destroying ∨ s'.holder = .dropped := by rw [hh]; exact ho.dropped
    have hne : s.own ≠ .destroying := by
      rintro hown
      simp [hown, OwnPc.isFinished] at hfin
    rcases hown' with hfin' | ⟨hc, hown' | ⟨hown', hnot⟩⟩
    · exact ho.unfinished hi hi' hfin hfin' hd hh
    · have hstatus := hi'.status
      rw [hown'] at hstatus
      obtain ⟨hcompleted, habandoned⟩ := OwnPc.destroying_done hstatus
      refine ho.last (by simp [State.allDone, hfin]) ?_ hd ?_ hdropped
      · simp [State.allDone, hown', OwnPc.isFinished, hcompleted, habandoned]
      · simp only [State.destroyers, hown', hc, hh, hne, if_true, if_false]
        omega
    · refine ho.stay ?_ ?_ hdropped
      · rw [State.allDone, State.allDone, hc, hh, hfin, Bool.and_assoc, hnot]
        simp
      · simp [State.destroyers, hown', hc, hh, hne, hd]
  · refine ho.stay ?_ ?_ ho.dropped
    · simp [State.allDone, State.destroy, OwnPc.isFinished, hown]
    · simp only [State.destroyers, State.destroy, hown, if_true, reduceCtorEq, if_false]
      omega

theorem Once.completionStep (ho : Once s) (hi : Inv s)
    (h : Lifecycle.completionStep s s.completion = some s') : Once s' := by
  have hstatus := hi.status
  have hcompletion := hi.completion
  cases hc : s.completion with
  | waiting | signalOwner =>
      rw [hc] at h
      cases h
      refine ho.stay ?_ ?_ ho.dropped
      · simp [State.allDone, hc, CompletionPc.isCompleted]
      · simp [State.destroyers, hc]
  | setCompleted =>
      rw [hc] at h hstatus hcompletion
      cases h
      obtain ⟨new, hnew, _, hfin⟩ := OwnPc.statuses_asyncCompleted hstatus hcompletion
      rw [State.setStatus_eq hnew]
      have hnot : s.allDone = false := by simp [State.allDone, hc, CompletionPc.isCompleted]
      by_cases hs : s.status = .abandonedFinalSuspended
      · obtain ⟨hown, habandoned⟩ := hfin.mp hs
        simp only [if_pos hs]
        refine ho.last hnot ?_ rfl ?_ ho.dropped
        · simp [State.allDone, hown, habandoned, OwnPc.isFinished, CompletionPc.isCompleted]
        · simp only [State.destroyers, hc, reduceCtorEq, if_true, if_false]
          omega
      · simp only [if_neg hs]
        refine ho.stay ?_ ?_ ho.dropped
        · rw [hnot]
          have hne : ¬(s.own = .finalSuspended ∧ s.holder.hasAbandoned = true) :=
            fun h => hs (hfin.mpr h)
          have hown : s.own.isFinished = true → s.own = .finalSuspended := by
            cases hp : s.own <;> simp_all [OwnPc.isFinished, OwnPc.allowsCompletion]
          simp only [State.allDone, Bool.and_eq_false_iff]
          by_cases hf : s.own.isFinished = true
          · exact .inr (by simpa [hown hf] using hne)
          · exact .inl (.inl (by simpa using hf))
        · simp [State.destroyers, hc]
  | destroying =>
      rw [hc] at h
      cases h
      refine ho.stay ?_ ?_ ho.dropped
      · simp [State.allDone, State.destroy, hc, CompletionPc.isCompleted]
      · simp only [State.destroyers, State.destroy, hc, if_true, reduceCtorEq, if_false]
        omega
  | _ =>
      rw [hc] at h
      cases h

theorem Once.holding (ho : Once s) (hold : s.holder.hasAbandoned = false)
    (hnew : s'.holder.hasAbandoned = false) (hown : s'.own = s.own)
    (hcompletion : s'.completion = s.completion) (hdestroyed : s'.destroyed = s.destroyed) :
    Once s' := by
  have hne : ∀ {p : HolderPc}, p.hasAbandoned = false → p ≠ .destroying := by
    rintro p h rfl
    cases h
  refine ho.stay ?_ ?_ fun h => by simp [hnew] at h
  · simp [State.allDone, hold, hnew]
  · simp [State.destroyers, hown, hcompletion, hdestroyed, hne hold, hne hnew]

theorem Once.recordDrop (ho : Once s) (hi : Inv s) (hold : s.holder.hasAbandoned = false)
    (hnew : s'.holder.hasAbandoned = true) (hown : s'.own = s.own)
    (hcompletion : s'.completion = s.completion) (hdestroyed : s'.destroyed = s.destroyed)
    (hholder : s.status = .completedFinalSuspended ∧ s'.holder = .destroying ∨
      s.status ≠ .completedFinalSuspended ∧ s'.holder = .dropped) : Once s' := by
  have hstatus := hi.status
  rw [hold] at hstatus
  have hnot : s.allDone = false := by simp [State.allDone, hold]
  have hne : s.holder ≠ .destroying := by
    rintro h
    simp [h, HolderPc.hasAbandoned] at hold
  rcases hholder with ⟨hs, hh⟩ | ⟨hs, hh⟩
  · rw [hs] at hstatus
    obtain ⟨hfin, hc, _⟩ := OwnPc.finalSuspended_of_completed hstatus
    refine ho.last hnot ?_ hdestroyed ?_ fun _ => .inl hh
    · simp [State.allDone, hown, hfin, hcompletion, hc, hnew, OwnPc.isFinished]
    · simp [State.destroyers, hown, hcompletion, hh, hne]
  · refine ho.stay ?_ ?_ fun _ => .inr hh
    · rw [hnot]
      have := OwnPc.finished_not_done hstatus hs
      simpa [State.allDone, hown, hcompletion, hnew] using this
    · simp [State.destroyers, hown, hcompletion, hdestroyed, hh, hne]

theorem Once.holderStep {b₁ b₂ b₃ : Bool} (ho : Once s) (hi : Inv s)
    (hg : dropsStarted s (.holder b₁ b₂ b₃) = true)
    (h : Lifecycle.holderStep s b₁ b₂ b₃ s.holder = some s') : Once s' := by
  cases hold : s.holder.hasAbandoned with
  | true =>
      rcases ho.dropped hold with hh | hh
      · rw [hh] at h
        cases h
        refine ho.stay ?_ ?_ fun _ => .inr rfl
        · simp [State.allDone, State.destroy, hh, HolderPc.hasAbandoned]
        · simp only [State.destroyers, State.destroy, hh, if_true, reduceCtorEq, if_false]
          omega
      · rw [hh] at h
        cases h
  | false =>
      cases hh : s.holder with
      | dropStatus =>
          rw [hh] at h
          cases h
          by_cases hs : s.status = .completedFinalSuspended
          · simp only [if_pos hs]
            exact ho.recordDrop hi hold rfl rfl rfl rfl (.inl ⟨hs, rfl⟩)
          · simp only [if_neg hs]
            exact ho.holding hold rfl rfl rfl rfl
      | abandon =>
          have hstatus := hi.status
          rw [hh] at h hstatus
          obtain ⟨new, hnew, _⟩ := OwnPc.statuses_abandon hstatus
          simp only [Lifecycle.holderStep, State.setStatus_eq hnew, Option.some.injEq] at h
          subst h
          obtain ⟨hyield, hstart⟩ : s.status ≠ .yieldedSuspended ∧
              ¬(s.kind = .task ∧ s.status = .notStarted) := by
            simpa only [dropsStarted, hh, decide_eq_true_iff] using hg
          by_cases hs : s.status = .completedFinalSuspended
          · simp only [if_pos hs]
            exact ho.recordDrop hi hold rfl rfl rfl rfl (.inl ⟨hs, rfl⟩)
          · simp only [if_neg hs, if_neg hstart, if_neg hyield]
            exact ho.recordDrop hi hold rfl rfl rfl rfl (.inr ⟨hs, rfl⟩)
      | pause caller | resume caller =>
          rw [hh] at h hold
          simp only [Lifecycle.holderStep, State.setStatus, Option.some.injEq] at h
          split at h <;> subst h <;> refine ho.holding (by rw [hh]; exact hold) ?_ rfl rfl rfl
          · cases caller <;> (try split) <;> first | rfl | exact hold
          · rw [hh]
            exact hold
      | takeAwaiter caller =>
          rw [hh] at h hold
          simp only [Lifecycle.holderStep, Option.some.injEq] at h
          subst h
          split <;> refine ho.holding (by rw [hh]; exact hold) ?_ rfl rfl rfl <;>
            cases caller <;> first | rfl | exact hold
      | cancelCheck caller | cancelMark caller | cancelStatus caller | cancelEmpty caller
      | tryAwaiter caller | checkPaused caller =>
          rw [hh] at h hold
          cases h
          refine ho.holding (by rw [hh]; exact hold) ?_ rfl rfl rfl
          cases caller <;> (try split) <;> first | rfl | exact hold
      | setOwner | unRef | clearValue =>
          rw [hh] at h hold
          cases h
          exact ho.holding (by rw [hh]; exact hold) rfl rfl rfl rfl
      | dropShouldCancel =>
          rw [hh] at h hold
          cases h
          refine ho.holding (by rw [hh]; exact hold) ?_ rfl rfl rfl
          split <;> rfl
      | holding =>
          rw [hh] at h
          cases h
      | _ => simp [hh, HolderPc.hasAbandoned] at hold

theorem Once.step {a : Action} (ho : Once s) (hi : Inv s) (hg : dropsStarted s a = true)
    (h : Lifecycle.step s a = some s') : Once s' := by
  have hi' : Inv s' := (hi.step h).1
  obtain ⟨_, hs⟩ := Option.ite_none_left_eq_some.mp h
  cases a with
  | body b =>
      obtain ⟨hown, hb⟩ := Option.ite_none_right_eq_some.mp hs
      have hfin : s.own.isFinished = false := by simp [hown, OwnPc.isFinished]
      cases b with
      | await kind =>
          obtain ⟨_, he⟩ := Option.ite_none_right_eq_some.mp hb
          cases he
          split
          · exact ho
          · exact ho.unfinished hi (by simpa only [if_neg ‹_›] using hi') hfin rfl rfl rfl
      | yield =>
          obtain ⟨_, he⟩ := Option.ite_none_right_eq_some.mp hb
          cases he
          exact ho.unfinished hi hi' hfin rfl rfl rfl
      | finish =>
          cases hb
          exact ho.unfinished hi hi' hfin rfl rfl rfl
  | own => exact ho.ownStep hi hi' hs
  | schedule =>
      cases hown : s.own with
      | parked kind =>
          simp only [hown] at hs
          obtain ⟨_, he⟩ := Option.ite_none_right_eq_some.mp hs
          cases he
          exact ho.unfinished hi hi' (by simp [hown, OwnPc.isFinished]) rfl rfl rfl
      | _ => simp [hown] at hs
  | completion => exact ho.completionStep hi hs
  | await =>
      obtain ⟨_, he⟩ := Option.ite_none_right_eq_some.mp hs
      cases he
      exact ho.stay rfl rfl ho.dropped
  | consumer =>
      cases hc : s.consumer with
      | idle => simp [hc, consumerStep] at hs
      | mark e =>
          simp only [hc, consumerStep, Option.some.injEq] at hs
          subst hs
          split <;> exact ho.stay rfl rfl ho.dropped
      | start =>
          rw [hc] at hs
          cases hown : s.own with
          | parked kind =>
              simp only [consumerStep, hown, Option.some.injEq] at hs
              subst hs
              exact ho.unfinished hi hi' (by simp [hown, OwnPc.isFinished]) rfl rfl rfl
          | _ => simp [consumerStep, hown] at hs
  | setCancelAbandoned b =>
      obtain ⟨_, he⟩ := Option.ite_none_right_eq_some.mp hs
      cases he
      exact ho.stay rfl rfl ho.dropped
  | cancel =>
      obtain ⟨hh, he⟩ := Option.ite_none_right_eq_some.mp hs
      cases he
      exact ho.holding (by rw [hh]; rfl) rfl rfl rfl rfl
  | drop =>
      obtain ⟨⟨hh, _⟩, he⟩ := Option.ite_none_right_eq_some.mp hs
      cases he
      exact ho.holding (by rw [hh]; rfl) rfl rfl rfl rfl
  | holder b₁ b₂ b₃ => exact ho.holderStep hi hg hs

theorem Once.no_step (ho : Once s) (hi : Inv s) (hdone : s.allDone = true)
    (hzero : s.destroyers = 0) (a : Action) : Lifecycle.step s a = none := by
  simp only [State.allDone, Bool.and_eq_true] at hdone
  simp only [State.destroyers, Nat.add_eq_zero_iff] at hzero
  have hown : s.own = .finalSuspended ∨ s.own = .destroyed := by
    cases hp : s.own <;> simp_all [OwnPc.isFinished]
  have hcompletion : s.completion = .finished := by
    cases hp : s.completion <;> simp_all [CompletionPc.isCompleted]
  have hholder : s.holder = .dropped :=
    (ho.dropped hdone.2).resolve_left fun h => by simp [h] at hzero
  have hidle : s.consumer = .idle := by
    refine hi.idle ?_ ?_ <;> intro hp <;> simp [hp] at hown
  unfold Lifecycle.step
  split
  · rfl
  · rcases hown with hown | hown <;> cases a <;>
      simp [hown, hcompletion, hholder, hidle, Lifecycle.ownStep, Lifecycle.completionStep,
        consumerStep, Lifecycle.holderStep, HolderPc.holdsHandle]

/-- The frame of a coroutine that runs to its end: in every run the parties that
have destroyed it or are about to are exactly one when the final suspension, the
completion and the drop have all happened, and none before; once it is destroyed
no party has a step left, so none can touch it. -/
theorem frame_destroyed_once
    (hs : system.ReachWhile (fun s a => dropsStarted s a = true) s) :
    (s.destroyed + s.destroyers = if s.allDone = true then 1 else 0) ∧
      (0 < s.destroyed → s.allDone = true ∧ ∀ a, system.step s a = none) := by
  have ho : Once s := by
    refine (hs.invariant (I := fun s => Inv s ∧ Once s) (fun s h => ?_)
      fun s a s' hi hg ha => ⟨(hi.1.step ha).1, hi.2.step hi.1 hg ha⟩).2
    obtain ⟨kind, _, _, rfl⟩ := h
    refine ⟨inv_initial, ?_, fun h => by cases h⟩
    simp [State.destroyers, State.allDone, initial, OwnPc.isFinished]
  have hcount := ho.count
  refine ⟨hcount, fun hpos => ?_⟩
  by_cases hdone : s.allDone = true
  · rw [if_pos hdone] at hcount
    exact ⟨hdone, ho.no_step (inv_of_reach hs.reach) hdone (by omega)⟩
  · rw [if_neg hdone] at hcount
    omega

end Steps

/-- Dropped while it awaits an event, then resumed and run to its end, with a
child that outlives it: the completed-state task is last. -/
theorem frame_destroyed_once_by_completion : ∃ s : State, s.destroyed = 1 ∧
    s.own = .finalSuspended ∧ ∀ a, system.step s a = none := by
  let run : List Action := cancelledWhileSuspended.take 10 ++
    .drop :: List.replicate 16 (.holder true true false) ++
    [.schedule, .own true true false false, .own true true false false, .body .finish] ++
    List.replicate 7 (.own true true false false) ++ List.replicate 4 .completion
  let M := system.restrict fun s a => dropsStarted s a = true
  obtain ⟨s, hr, hdestroyed, hown⟩ := StepSystem.Reach.exists_of_exec (M := M)
    (P := fun s => s.destroyed = 1 ∧ s.own = .finalSuspended) (s := initial .async true)
    (.start ⟨_, _, by simp, rfl⟩) run (by decide)
  exact ⟨s, hdestroyed, hown, ((frame_destroyed_once hr.reachWhile).2 (by omega)).2⟩

end LevelzAsync.Lifecycle
