import LevelzAsync.GeneratorDrop

/-!
# An abandoned generator is continued

Who continues a generator that is suspended at its `co_yield` depends on whether
the last handle is dropped before or after `onSuspend` changes the status. After
it, `destroyOrAbandon` finds `YieldedSuspended`; before it, the generator finds
`Abandoned` and has to go on by itself, which it does only if its thread may
execute it.
-/

namespace LevelzAsync.Lifecycle

open CoroutineStatus

/-- Somebody continues a generator that is suspended at its `co_yield`: it waits for
its consumer with a live handle, or the dropping thread acts on it. -/
structure Continued (s : State) : Prop where
  live : s.own = .parked .yield → s.holder.hasAbandoned = false →
    s.status = .yieldedSuspended ∨ s.consumer = .start
  dropped : s.own = .parked .yield → s.holder.hasAbandoned = true →
    s.status = .abandonedYieldSuspended ∧
      (s.holder.inYielded = true ∨ s.holder = .destroying ∨ 0 < s.destroyed)

/-- A `co_yield` whose `setStatus(Suspended)` finds `Abandoned` is on its own pool, may
go on in the same thread, and has read that it is to be cancelled. -/
def mayContinueAbandoned (s : State) (a : Action) : Bool :=
  match a, s.own with
  | .own sameThreadPoolKind canDoChainedExecution _ _,
      .suspend .yield isCancelled shouldCancelAbandoned =>
      s.status = .abandoned → sameThreadPoolKind = true ∧ canDoChainedExecution = true ∧
        (shouldCancelAbandoned = true ∨ isCancelled = true)
  | _, _ => true

section Steps

variable {s s' : State}

theorem AwaiterKind.onSuspend_abandoned {shouldCancelAbandoned isCancelled : Bool}
    (h : shouldCancelAbandoned = true ∨ isCancelled = true) :
    AwaiterKind.yield.onSuspend true true .abandoned shouldCancelAbandoned isCancelled =
      .shouldNotSuspend := by
  rcases h with rfl | rfl
  · cases isCancelled <;> rfl
  · cases shouldCancelAbandoned <;> rfl

theorem Continued.of_awake (hown : s.own ≠ .parked .yield) : Continued s :=
  ⟨fun h => absurd h hown, fun h => absurd h hown⟩

theorem Continued.suspend {b₁ b₂ b₃ b₄ isCancelled shouldCancelAbandoned : Bool} (hi : Inv s)
    (hown : s.own = .suspend .yield isCancelled shouldCancelAbandoned)
    (hg : mayContinueAbandoned s (.own b₁ b₂ b₃ b₄) = true)
    (ha : Lifecycle.ownStep s b₁ b₂ b₃ b₄ s.own = some s') : Continued s' := by
  have hstatus : s.status ∈ OwnPc.enteringStatuses .yield s.completion.isCompleted
      s.holder.hasAbandoned s.holder.isPausing := by
    have := hi.status
    rwa [hown] at this
  rw [hown] at ha
  have hkind : AwaiterKind.yield ≠ .final := nofun
  obtain ⟨new, hnew, _⟩ := OwnPc.statuses_suspended hkind hstatus
  simp only [Lifecycle.ownStep, reduceCtorEq, decide_false, State.setStatus_eq hnew, if_false,
    Option.some.injEq] at ha
  cases habandoned : s.holder.hasAbandoned with
  | true =>
      have hs : s.status = .abandoned := by
        rw [habandoned] at hstatus
        cases hp : s.holder.isPausing <;> simp_all [OwnPc.enteringStatuses]
      simp only [mayContinueAbandoned, hown, hs, true_implies, decide_eq_true_eq] at hg
      obtain ⟨rfl, rfl, hcancel⟩ := hg
      rw [hs, AwaiterKind.onSuspend_abandoned hcancel] at ha
      subst ha
      exact .of_awake (by rintro ⟨⟩)
  | false =>
      have hs : s.status = .yielded := by
        rw [habandoned] at hstatus
        cases hp : s.holder.isPausing <;> simp_all [OwnPc.enteringStatuses]
      rw [hs] at hnew
      obtain rfl : CoroutineStatus.yieldedSuspended = new := Option.some.inj hnew
      subst ha
      exact ⟨fun _ _ => .inl rfl, fun _ hd => absurd (hd.symm.trans habandoned) (by decide)⟩

theorem Continued.ownStep {b₁ b₂ b₃ b₄ : Bool} (hi : Inv s)
    (hg : mayContinueAbandoned s (.own b₁ b₂ b₃ b₄) = true)
    (ha : Lifecycle.ownStep s b₁ b₂ b₃ b₄ s.own = some s') : Continued s' := by
  cases hown : s.own with
  | suspend kind isCancelled shouldCancelAbandoned =>
      by_cases hk : kind = .yield
      · subst hk
        exact .suspend hi hown hg ha
      · rw [hown] at ha
        have he := Option.some.inj ha
        unfold State.setStatus at he
        split at he <;> subst he <;> refine .of_awake ?_
        · dsimp only
          split_ifs <;> rintro ⟨⟩
          exact hk rfl
        · rw [hown]
          nofun
  | setRunning kind =>
      rw [hown] at ha
      have he := Option.some.inj ha
      unfold State.setStatus at he
      split at he <;> subst he <;> refine .of_awake ?_
      · dsimp only
        split_ifs <;> nofun
      · rw [hown]
        nofun
  | setYielded | setReturned | setCompleted =>
      rw [hown] at ha
      have he := Option.some.inj ha
      unfold State.setStatus at he
      split at he <;> subst he <;> refine .of_awake ?_
      · nofun
      · rw [hown]
        nofun
  | ready kind | countCheck | spinPaused =>
      rw [hown] at ha
      cases ha
      refine .of_awake ?_
      dsimp only
      split_ifs <;> nofun
  | suspendRead kind | removeAwaiter kind | countDownLast | signalOwner | enqueueCompletedState
  | countDown | destroying =>
      rw [hown] at ha
      cases ha
      exact .of_awake nofun
  | parked | body | finalSuspended | destroyed =>
      rw [hown] at ha
      cases ha

theorem Continued.hold (h : Continued s) (hown : s'.own = s.own)
    (hconsumer : s'.consumer = s.consumer) (hold : s.holder.hasAbandoned = false)
    (hnew : s'.holder.hasAbandoned = false)
    (hstatus : s.status = .yieldedSuspended → s'.status = .yieldedSuspended) : Continued s' where
  live hp _ := by
    rw [hown] at hp
    rw [hconsumer]
    exact (h.live hp hold).imp_left hstatus
  dropped _ hd := absurd (hd.symm.trans hnew) nofun

theorem Continued.act (h : Continued s) (hown : s'.own = s.own) (hstatus : s'.status = s.status)
    (hdestroyed : s.destroyed ≤ s'.destroyed) (hold : s.holder.hasAbandoned = true)
    (hnew : s'.holder.hasAbandoned = true)
    (hacts : s.holder.inYielded = true ∨ s.holder = .destroying →
      s'.holder.inYielded = true ∨ s'.holder = .destroying ∨ 0 < s'.destroyed) :
    Continued s' where
  live _ hd := absurd (hd.symm.trans hnew) nofun
  dropped hp _ := by
    rw [hown] at hp
    rw [hstatus]
    obtain ⟨hs, hb⟩ := h.dropped hp hold
    refine ⟨hs, ?_⟩
    rcases hb with hb | hb | hb
    · exact hacts (.inl hb)
    · exact hacts (.inr hb)
    · exact .inr (.inr (by omega))

theorem Continued.abandon (h : Continued s) (hi : Inv s) (hh : s.holder = .abandon) {s' : State}
    (ha : s' = s.setStatus false .abandoned fun lastStatus s =>
      { s with holder :=
          if lastStatus = .completedFinalSuspended then .destroying
          else if s.kind = .task ∧ lastStatus = .notStarted then .destroying
          else if lastStatus = .yieldedSuspended then .yieldCount
          else .dropped }) : Continued s' := by
  by_cases hown : s.own = .parked .yield
  · have hs : s.status = .yieldedSuspended := by
      refine (h.live hown (by rw [hh]; rfl)).resolve_right fun hc => ?_
      have := (hi.consumer (by rw [hc]; nofun)).1
      rw [hh] at this
      cases this
    subst ha
    have hset : CoroutineStatus.setStatus false s.status .abandoned =
        some .abandonedYieldSuspended := by rw [hs]; rfl
    rw [State.setStatus_eq hset, hs]
    simp only [reduceCtorEq, and_false, if_false, if_true]
    exact ⟨nofun, fun _ _ => ⟨rfl, .inl rfl⟩⟩
  · refine .of_awake ?_
    subst ha
    unfold State.setStatus
    split <;> exact hown

theorem Continued.holderStep {b₁ b₂ b₃ : Bool} (h : Continued s) (hi : Inv s)
    (ha : Lifecycle.holderStep s b₁ b₂ b₃ s.holder = some s') : Continued s' := by
  have hstray := hi.holder
  cases hh : s.holder with rw [hh] at ha hstray
  | holding | dropped => cases ha
  | cancelCheck caller | cancelMark caller | cancelStatus caller | cancelEmpty caller
  | takeAwaiter caller | tryAwaiter caller | checkPaused caller =>
      simp only [Lifecycle.holderStep, Option.some.injEq] at ha
      subst ha
      cases caller with
      | abandonedYield =>
          refine h.act ?_ ?_ ?_ (by rw [hh]; rfl) ?_ fun _ => .inl ?_
          all_goals first | rfl | exact Nat.le_refl _ | (split <;> rfl)
      | holder | drop =>
          refine h.hold ?_ ?_ (by rw [hh]; rfl) ?_ fun hs => ?_
          all_goals first | rfl | exact hs | (split <;> first | rfl | exact hs)
  | pause caller | resume caller =>
      have hcaller : caller ≠ .abandonedYield := by
        rintro rfl
        cases hstray
      cases ha
      refine h.hold ?_ ?_ ?_ ?_ fun hs => ?_
      · unfold State.setStatus
        split <;> rfl
      · unfold State.setStatus
        split <;> rfl
      · rw [hh]
        cases caller <;> first | rfl | exact absurd rfl hcaller
      · unfold State.setStatus
        split
        · cases caller <;> first | rfl | exact absurd rfl hcaller | (dsimp only; split_ifs <;> rfl)
        · change s.holder.hasAbandoned = false
          rw [hh]
          cases caller <;> first | rfl | exact absurd rfl hcaller
      · simp only [State.setStatus, hs, CoroutineStatus.setStatus]
  | setOwner | unRef | clearValue | dropShouldCancel =>
      cases ha
      refine h.hold rfl rfl (by rw [hh]; rfl) ?_ fun hs => hs
      first | rfl | (dsimp only; split_ifs <;> rfl)
  | dropStatus =>
      cases ha
      by_cases hs : s.status = .completedFinalSuspended
      · refine .of_awake ?_
        have hstatus := hi.status
        rw [hh, hs] at hstatus
        rw [(OwnPc.finalSuspended_of_completed hstatus).1]
        rintro ⟨⟩
      · rw [if_neg hs]
        exact h.hold rfl rfl (by rw [hh]; rfl) rfl fun hs => hs
  | abandon => exact h.abandon hi hh (Option.some.inj ha).symm
  | yieldCount | clearContinuation =>
      cases ha
      refine h.act rfl rfl (Nat.le_refl _) (by rw [hh]; rfl) ?_ fun _ => ?_
      · first | rfl | (dsimp only; split_ifs <;> rfl)
      · dsimp only
        first | exact .inl rfl | (split_ifs <;> first | exact .inl rfl | exact .inr (.inl rfl))
  | scheduleYielded =>
      cases ha
      refine .of_awake ?_
      dsimp only
      split_ifs with hown
      · rintro ⟨⟩
      · exact hown
  | destroying =>
      cases ha
      exact h.act rfl rfl (Nat.le_succ _) (by rw [hh]; rfl) rfl
        fun _ => .inr (.inr (Nat.succ_pos _))

theorem Continued.step {a : Action} (h : Continued s) (hi : Inv s)
    (hg : mayContinueAbandoned s a = true) (ha : Lifecycle.step s a = some s') :
    Continued s' := by
  obtain ⟨_, hs⟩ := Option.ite_none_left_eq_some.mp ha
  cases a with
  | body b =>
      obtain ⟨hown, hb⟩ := Option.ite_none_right_eq_some.mp hs
      cases b with
      | await kind =>
          obtain ⟨_, he⟩ := Option.ite_none_right_eq_some.mp hb
          cases he
          split
          · exact h
          · exact .of_awake nofun
      | yield =>
          obtain ⟨_, he⟩ := Option.ite_none_right_eq_some.mp hb
          cases he
          exact .of_awake nofun
      | finish =>
          cases hb
          exact .of_awake nofun
  | own => exact .ownStep hi hg hs
  | schedule =>
      cases hown : s.own with
      | parked kind =>
          simp only [hown] at hs
          obtain ⟨_, he⟩ := Option.ite_none_right_eq_some.mp hs
          cases he
          exact .of_awake nofun
      | _ => simp [hown] at hs
  | completion =>
      have hc : s.completion ≠ .none := fun hc => by
        rw [hc] at hs
        cases hs
      have hown : s.own ≠ .parked .yield := by
        intro hown
        refine hc (OwnPc.completion_of_atYield ?_ hi.completion)
        rw [hown]
        rfl
      refine .of_awake ?_
      cases hc : s.completion with rw [hc] at hs
      | waiting | signalOwner | destroying =>
          cases hs
          exact hown
      | setCompleted =>
          cases hs
          unfold State.setStatus
          split <;> exact hown
      | none | enqueued | finished => cases hs
  | await =>
      obtain ⟨⟨hc, _, _⟩, he⟩ := Option.ite_none_right_eq_some.mp hs
      cases he
      refine ⟨fun hp hd => .inl ((h.live hp hd).resolve_right ?_), h.dropped⟩
      rw [hc]
      nofun
  | consumer =>
      cases hc : s.consumer with rw [hc] at hs
      | idle => cases hs
      | mark e =>
          cases hs
          have hold := HolderPc.not_abandoned_of_holds (hi.consumer (by rw [hc]; nofun)).1
          rw [if_pos (hi.mark e hc).1]
          exact ⟨fun _ _ => .inr rfl, fun _ hd => absurd (hd.symm.trans hold) nofun⟩
      | start =>
          unfold consumerStep at hs
          cases hown : s.own with rw [hown] at hs
          | parked kind =>
              cases hs
              exact .of_awake nofun
          | _ => cases hs
  | setCancelAbandoned b =>
      obtain ⟨_, he⟩ := Option.ite_none_right_eq_some.mp hs
      cases he
      exact ⟨h.live, h.dropped⟩
  | cancel =>
      obtain ⟨hh, he⟩ := Option.ite_none_right_eq_some.mp hs
      cases he
      exact h.hold rfl rfl (by rw [hh]; rfl) rfl id
  | drop =>
      obtain ⟨⟨hh, _⟩, he⟩ := Option.ite_none_right_eq_some.mp hs
      cases he
      exact h.hold rfl rfl (by rw [hh]; rfl) rfl id
  | holder b₁ b₂ b₃ => exact h.holderStep hi hs

theorem continued_of_reachWhile
    (hs : system.ReachWhile (fun s a => mayContinueAbandoned s a = true) s) : Continued s := by
  refine (hs.invariant (I := fun s => Inv s ∧ Continued s) (fun s h => ?_)
    fun s a s' h hg ha => ⟨(h.1.step ha).1, h.2.step h.1 hg ha⟩).2
  obtain ⟨kind, cancelAbandoned, _, rfl⟩ := h
  exact ⟨inv_initial, .of_awake nofun⟩

/-- A generator suspended at its `co_yield` has a live handle, and waits for its
consumer or is being started by it, or the dropping thread destroys or schedules it. -/
theorem parked_generator_continued
    (hs : system.ReachWhile (fun s a => mayContinueAbandoned s a = true) s)
    (hown : s.own = .parked .yield) :
    s.holder.hasAbandoned = false ∧ (s.status = .yieldedSuspended ∨ s.consumer = .start) ∨
      s.status = .abandonedYieldSuspended ∧
        (s.holder.inYielded = true ∨ s.holder = .destroying ∨ 0 < s.destroyed) := by
  have h := continued_of_reachWhile hs
  cases hd : s.holder.hasAbandoned with
  | false => exact .inl ⟨rfl, h.live hown hd⟩
  | true => exact .inr (h.dropped hown hd)

end Steps

theorem parked_generator_continued_dropped : ∃ s : State, s.own = .parked .yield ∧
    s.holder.hasAbandoned = true ∧ 0 < s.destroyed := by
  let run := runsToYield ++ List.replicate 2 (.own true true false false) ++ dropMarks ++
    List.replicate 5 (.holder true true true)
  let M := system.restrict fun s a => mayContinueAbandoned s a = true
  obtain ⟨s, hr, hown, hholder⟩ := StepSystem.Reach.exists_of_exec (M := M)
    (P := fun s => s.own = .parked .yield ∧ s.holder = .dropped) (s := initial .task true)
    (.start ⟨_, _, by simp, rfl⟩) run (by decide)
  refine ⟨s, hown, by rw [hholder]; rfl, ?_⟩
  rcases parked_generator_continued hr.reachWhile hown with ⟨hlive, _⟩ | ⟨_, hb | hb | hb⟩
  · rw [hholder] at hlive
    cases hlive
  · rw [hholder] at hb
    cases hb
  · rw [hholder] at hb
    cases hb
  · exact hb

/-- The drop comes while the generator is about to suspend, and its thread may not
go on with chained execution. -/
theorem parked_generator_stranded :
    ¬ ∀ s, system.Reach s → s.own = .parked .yield →
      s.holder.hasAbandoned = false ∧ (s.status = .yieldedSuspended ∨ s.consumer = .start) ∨
        s.status = .abandonedYieldSuspended ∧
          (s.holder.inYielded = true ∨ s.holder = .destroying ∨ 0 < s.destroyed) := by
  intro h
  let run := runsToYield ++ .drop :: List.replicate 9 (.holder true true true) ++
    List.replicate 2 (.own true false false false)
  obtain ⟨s, hr, hown, hstatus, hholder⟩ := StepSystem.Reach.exists_of_exec (M := system)
    (P := fun s => s.own = .parked .yield ∧ s.status = .abandoned ∧ s.holder = .dropped)
    (s := initial .task true) (.start ⟨_, _, by simp, rfl⟩) run (by decide)
  rcases h s hr hown with ⟨hlive, _⟩ | ⟨hs, _⟩
  · rw [hholder] at hlive
    cases hlive
  · rw [hstatus] at hs
    cases hs

end LevelzAsync.Lifecycle
