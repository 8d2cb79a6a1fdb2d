import LevelzAsync.LifecycleFrame

/-!
# Dropping a generator that is yielding

`destroyOrAbandon` decides from the status that its `setStatus(Abandoned)` finds
whether the generator is suspended at its `co_yield`, and then destroys it or
schedules it once more. The generator publishes that status in `onSuspend` and
decides afterwards, from what it has read before, whether it stays suspended.
-/

namespace LevelzAsync.Lifecycle

open CoroutineStatus

def HolderPc.inYielded : HolderPc → Bool
  | cancelCheck .abandonedYield | cancelMark .abandonedYield | cancelStatus .abandonedYield
  | cancelEmpty .abandonedYield | pause .abandonedYield | takeAwaiter .abandonedYield _
  | tryAwaiter .abandonedYield _ | checkPaused .abandonedYield _ | resume .abandonedYield
  | yieldCount | clearContinuation | scheduleYielded => true
  | _ => false

/-- Where a coroutine is that has published `YieldedSuspended`. -/
def OwnPc.atYield : OwnPc → Bool
  | parked .yield | removeAwaiter .yield | setRunning .yield => true
  | _ => false

section Tables

variable {own : OwnPc} {isFinalAwaiter completed abandoned pausing : Bool}
  {current status : CoroutineStatus}

theorem setStatus_eq_abandonedYieldSuspended
    (h : CoroutineStatus.setStatus isFinalAwaiter current status = some .abandonedYieldSuspended) :
    current = .yieldedSuspended ∧ status = .abandoned := by
  cases current <;> cases status <;> cases isFinalAwaiter <;> simp_all [CoroutineStatus.setStatus]

theorem OwnPc.atYield_of_status (h : status ∈ own.statuses completed abandoned pausing)
    (hs : status = .yieldedSuspended ∨ status = .abandonedYieldSuspended) : own.atYield = true := by
  rcases hs with rfl | rfl <;> cases own with
  | ready kind | suspendRead kind | suspend kind =>
      cases kind <;> cases completed <;> cases abandoned <;> cases pausing <;>
        simp_all [statuses, enteringStatuses, awakeStatuses, returnedStatuses]
  | parked kind | removeAwaiter kind | setRunning kind =>
      cases kind <;> cases abandoned <;> cases pausing <;>
        simp_all [statuses, leavingStatuses, atYield]
  | _ =>
      cases completed <;> cases abandoned <;> cases pausing <;>
        simp_all [statuses, awakeStatuses, returnedStatuses]

theorem OwnPc.abandoned_of_status
    (h : .abandonedYieldSuspended ∈ own.statuses completed abandoned pausing) :
    abandoned = true := by
  cases abandoned with
  | true => rfl
  | false =>
      cases own with
      | ready kind | suspendRead kind | suspend kind =>
          cases kind <;> cases completed <;> cases pausing <;>
            simp_all [statuses, enteringStatuses, awakeStatuses, returnedStatuses]
      | parked kind | removeAwaiter kind | setRunning kind =>
          cases kind <;> cases pausing <;> simp_all [statuses, leavingStatuses]
      | _ =>
          cases completed <;> cases pausing <;>
            simp_all [statuses, awakeStatuses, returnedStatuses]

theorem HolderPc.hasAbandoned_of_inYielded {holder : HolderPc} (h : holder.inYielded = true) :
    holder.hasAbandoned = true := by
  cases holder with
  | cancelCheck c | cancelMark c | cancelStatus c | cancelEmpty c | pause c | takeAwaiter c
  | tryAwaiter c | checkPaused c | resume c => cases c <;> first | rfl | cases h
  | _ => first | rfl | cases h

theorem HolderPc.not_abandoned_of_holds {holder : HolderPc} (h : holder.holdsHandle = true) :
    holder.hasAbandoned = false := by
  cases holder with
  | cancelCheck c | cancelMark c | cancelStatus c | cancelEmpty c | pause c | takeAwaiter c
  | tryAwaiter c | checkPaused c | resume c => cases c <;> first | rfl | cases h
  | _ => first | rfl | cases h

end Tables

section Steps

variable {s s' : State}

/-- Only the abandonment of a generator that has published `YieldedSuspended` sets
`AbandonedYieldSuspended`. -/
theorem State.setStatus_abandonedYieldSuspended {isFinalAwaiter : Bool} {status : CoroutineStatus}
    {next : CoroutineStatus → State → State}
    (h : (s.setStatus isFinalAwaiter status next).status = .abandonedYieldSuspended)
    (hne : status ≠ .abandoned) (hnext : ∀ p t, (next p t).status = t.status) :
    s.status = .abandonedYieldSuspended := by
  unfold State.setStatus at h
  split at h
  next new hnew =>
    rw [hnext] at h
    subst h
    exact absurd (setStatus_eq_abandonedYieldSuspended hnew).2 hne
  next => exact h

theorem ownStep_abandonedYieldSuspended {b₁ b₂ b₃ b₄ : Bool}
    (h : ownStep s b₁ b₂ b₃ b₄ s.own = some s') (hs : s'.status = .abandonedYieldSuspended) :
    s.status = .abandonedYieldSuspended := by
  cases hown : s.own with
  | suspend kind | setRunning kind | setYielded | setReturned | setCompleted =>
      rw [hown] at h
      cases h
      exact State.setStatus_abandonedYieldSuspended hs nofun fun _ _ => rfl
  | parked | body | finalSuspended | destroyed =>
      rw [hown] at h
      cases h
  | _ =>
      rw [hown] at h
      cases h
      exact hs

/-- The generator stands still from the abandonment until it is destroyed or
scheduled. -/
structure YieldDrop (s : State) : Prop where
  fresh : 0 < s.destroyed ∨ s.completion = .destroying → s.holder.hasAbandoned = true
  suspended : s.status = .abandonedYieldSuspended →
    s.own = .parked .yield ∨ s.holder = .dropped ∧ s.destroyed = 0
  branch : s.holder.inYielded = true → s.status = .abandonedYieldSuspended ∧ s.destroyed = 0

theorem YieldDrop.moveOwn (h : YieldDrop s) (hholder : s'.holder = s.holder)
    (hstatus : s'.status = .abandonedYieldSuspended → s.status = .abandonedYieldSuspended)
    (hown : s.own ≠ .parked .yield)
    (hdestroyed : s'.destroyed = s.destroyed ∨
      s.holder.hasAbandoned = true ∧ s'.status ≠ .abandonedYieldSuspended)
    (hcompletion : s'.completion = .destroying → s.holder.hasAbandoned = true) : YieldDrop s' where
  fresh hf := by
    rw [hholder]
    rcases hf with hf | hf
    · rcases hdestroyed with hd | ⟨ha, _⟩
      · exact h.fresh (.inl (hd ▸ hf))
      · exact ha
    · exact hcompletion hf
  suspended hs := by
    obtain ⟨hd, hz⟩ := (h.suspended (hstatus hs)).resolve_left hown
    rw [hholder]
    exact .inr ⟨hd, (hdestroyed.resolve_right fun hn => hn.2 hs).trans hz⟩
  branch hb := by
    rw [hholder] at hb
    have := (h.suspended (h.branch hb).1).resolve_left hown
    rw [this.1] at hb
    cases hb

theorem OwnPc.completion_of_atYield {own : OwnPc} {completion : CompletionPc}
    (hown : own.atYield = true) (h : own.allowsCompletion completion = true) :
    completion = .none := by
  cases own with
  | parked kind | removeAwaiter kind | setRunning kind =>
      cases kind <;> simp_all [atYield, allowsCompletion]
  | _ => cases hown

theorem Inv.ne_abandonedYieldSuspended (hi : Inv s) (hc : s.completion ≠ .none) :
    s.status ≠ .abandonedYieldSuspended := fun hs =>
  hc (OwnPc.completion_of_atYield (OwnPc.atYield_of_status hi.status (.inr hs)) hi.completion)

theorem YieldDrop.ownStep {b₁ b₂ b₃ b₄ : Bool} (h : YieldDrop s) (hi : Inv s)
    (hi' : Inv s') (ha : Lifecycle.ownStep s b₁ b₂ b₃ b₄ s.own = some s') : YieldDrop s' := by
  obtain ⟨hholder, ⟨_, hdestroyed, hown'⟩ | ⟨hown, rfl⟩⟩ := hi.ownStep_frame ha
  · refine h.moveOwn hholder (ownStep_abandonedYieldSuspended ha) (ownStep_parked ha)
      (.inl hdestroyed) fun hc => ?_
    rcases hown' with hfin | ⟨he, _⟩
    · have hallows := hi'.completion
      rw [hc] at hallows
      cases hp : s'.own with
      | ready kind | suspendRead kind | suspend kind =>
          cases kind <;> simp_all [OwnPc.allowsCompletion]
      | _ => simp_all [OwnPc.allowsCompletion, OwnPc.isFinished]
    · exact h.fresh (.inr (he ▸ hc))
  · have hstatus := hi.status
    have hcompletion := hi.completion
    rw [hown] at hstatus hcompletion
    obtain ⟨_, habandoned⟩ := OwnPc.destroying_done hstatus
    have hfinished : s.completion = .finished := by
      simpa [OwnPc.allowsCompletion] using hcompletion
    refine h.moveOwn rfl id (by rw [hown]; rintro ⟨⟩) (.inr ⟨habandoned, ?_⟩)
      fun hc => h.fresh (.inr hc)
    exact hi.ne_abandonedYieldSuspended (by rw [hfinished]; rintro ⟨⟩)

theorem YieldDrop.completionStep (h : YieldDrop s) (hi : Inv s)
    (ha : Lifecycle.completionStep s s.completion = some s') : YieldDrop s' := by
  have hown : s.completion ≠ .none → s.own ≠ .parked .yield := by
    intro hc hown
    refine hc (OwnPc.completion_of_atYield ?_ hi.completion)
    rw [hown]
    rfl
  cases hc : s.completion with
  | waiting | signalOwner =>
      rw [hc] at ha
      cases ha
      exact h.moveOwn rfl id (hown (by rw [hc]; nofun)) (.inl rfl) nofun
  | setCompleted =>
      have hstatus := hi.status
      have hcompletion := hi.completion
      rw [hc] at ha hstatus hcompletion
      cases ha
      obtain ⟨new, hnew, _, hfin⟩ := OwnPc.statuses_asyncCompleted hstatus hcompletion
      rw [State.setStatus_eq hnew]
      refine h.moveOwn rfl (fun hs => ?_) (hown (by rw [hc]; nofun)) (.inl rfl) fun hd => ?_
      · change new = .abandonedYieldSuspended at hs
        subst hs
        exact absurd (setStatus_eq_abandonedYieldSuspended hnew).2 nofun
      · by_cases hs : s.status = .abandonedFinalSuspended
        · exact (hfin.mp hs).2
        · rw [if_neg hs] at hd
          cases hd
  | destroying =>
      rw [hc] at ha
      cases ha
      exact h.moveOwn rfl id (hown (by rw [hc]; nofun)) (.inr ⟨h.fresh (.inr hc),
        hi.ne_abandonedYieldSuspended (by rw [hc]; nofun)⟩) nofun
  | none | enqueued | finished =>
      rw [hc] at ha
      cases ha

theorem YieldDrop.goHolder {q : HolderPc} (h : YieldDrop s) (hq : s.holder = q)
    (hown : s'.own = s.own) (hcompletion : s'.completion = s.completion)
    (hdestroyed : s'.destroyed = s.destroyed) (hstatus : s'.status = s.status)
    (hdropped : q ≠ .dropped) (habandoned : q.hasAbandoned = true → s'.holder.hasAbandoned = true)
    (hbranch : s'.holder.inYielded = true → q.inYielded = true) : YieldDrop s' where
  fresh hf := by
    rw [hdestroyed, hcompletion] at hf
    exact habandoned (hq ▸ h.fresh hf)
  suspended hs := by
    rw [hstatus] at hs
    rw [hown]
    exact .inl ((h.suspended hs).resolve_right fun hd => hdropped (hq.symm.trans hd.1))
  branch hb := by
    rw [hstatus, hdestroyed]
    exact h.branch (hq ▸ hbranch hb)

/-- A status that the holder changes while it still has not abandoned the coroutine. -/
theorem YieldDrop.hold (h : YieldDrop s) (hold : s.holder.hasAbandoned = false)
    (hcompletion : s'.completion = s.completion) (hdestroyed : s'.destroyed = s.destroyed)
    (hstatus : s'.status = .abandonedYieldSuspended → s'.own = .parked .yield)
    (hbranch : s'.holder.inYielded = true → s'.status = .abandonedYieldSuspended) :
    YieldDrop s' := by
  have hfresh : ¬(0 < s.destroyed ∨ s.completion = .destroying) := fun hf => by
    rw [h.fresh hf] at hold
    cases hold
  refine ⟨fun hf => absurd (by rwa [hdestroyed, hcompletion] at hf) hfresh,
    fun hs => .inl (hstatus hs), fun hb => ⟨hbranch hb, ?_⟩⟩
  rw [hdestroyed]
  exact Nat.eq_zero_of_not_pos fun hd => hfresh (.inl hd)

theorem Inv.ne_of_not_abandoned (hi : Inv s) (hold : s.holder.hasAbandoned = false) :
    s.status ≠ .abandonedYieldSuspended := fun hs => by
  have hstatus := hi.status
  rw [hs] at hstatus
  rw [OwnPc.abandoned_of_status hstatus] at hold
  cases hold

theorem YieldDrop.abandon (h : YieldDrop s) (hi : Inv s) (hh : s.holder = .abandon)
    (hasleep : s.status = .yieldedSuspended → s.own = .parked .yield) {s' : State}
    (ha : s' = s.setStatus false .abandoned fun lastStatus s =>
      { s with holder :=
          if lastStatus = .completedFinalSuspended then .destroying
          else if s.kind = .task ∧ lastStatus = .notStarted then .destroying
          else if lastStatus = .yieldedSuspended then .yieldCount
          else .dropped }) : YieldDrop s' := by
  have hstatus := hi.status
  rw [hh] at hstatus
  obtain ⟨new, hnew, _⟩ := OwnPc.statuses_abandon hstatus
  rw [State.setStatus_eq hnew] at ha
  subst ha
  refine h.hold (by rw [hh]; rfl) rfl rfl (fun hs => ?_) fun hb => ?_
  · change new = .abandonedYieldSuspended at hs
    subst hs
    exact hasleep (setStatus_eq_abandonedYieldSuspended hnew).1
  · change HolderPc.inYielded (ite ..) = true at hb
    change new = .abandonedYieldSuspended
    split_ifs at hb with h₁ h₂ h₃
    · cases hb
    · cases hb
    · rw [h₃] at hnew
      exact (Option.some.inj hnew).symm
    · cases hb

theorem YieldDrop.holderStep {b₁ b₂ b₃ : Bool} (h : YieldDrop s) (hi : Inv s)
    (hasleep : s.holder = .abandon → s.status = .yieldedSuspended → s.own = .parked .yield)
    (ha : Lifecycle.holderStep s b₁ b₂ b₃ s.holder = some s') : YieldDrop s' := by
  have hstray := hi.holder
  cases hh : s.holder with rw [hh] at ha hstray
  | holding | dropped => cases ha
  | cancelCheck caller | cancelMark caller | cancelStatus caller | cancelEmpty caller
  | takeAwaiter caller | tryAwaiter caller | checkPaused caller =>
      have he := Option.some.inj ha
      subst he
      cases caller <;> (try split) <;>
        exact h.goHolder hh rfl rfl rfl rfl nofun (fun he => by first | rfl | exact he)
          fun hb => by first | rfl | cases hb
  | pause caller | resume caller =>
      have hcaller : caller ≠ .abandonedYield := by
        rintro rfl
        cases hstray
      have hold : s.holder.hasAbandoned = false := by
        rw [hh]
        cases caller <;> first | rfl | exact absurd rfl hcaller
      cases ha
      have hne := hi.ne_of_not_abandoned hold
      refine h.hold hold ?_ ?_ (fun hs => absurd
        (State.setStatus_abandonedYieldSuspended hs nofun fun _ _ => rfl) hne) fun hb => ?_
      all_goals unfold State.setStatus at *
      · split <;> rfl
      · split <;> rfl
      · split at hb
        · dsimp only at hb
          cases caller <;> (try split_ifs at hb) <;> first | exact absurd rfl hcaller | cases hb
        · rw [hh] at hb
          cases caller <;> first | exact absurd rfl hcaller | cases hb
  | setOwner | unRef | clearValue | clearContinuation =>
      cases ha
      exact h.goHolder hh rfl rfl rfl rfl nofun (fun he => by first | rfl | exact he)
        fun hb => by first | rfl | cases hb
  | dropStatus | dropShouldCancel | yieldCount =>
      cases ha
      refine h.goHolder hh rfl rfl rfl rfl nofun (fun he => ?_) fun hb => ?_ <;> split_ifs at *
      all_goals first | rfl | exact he | cases he | cases hb
  | abandon => exact h.abandon hi hh (hasleep hh) (Option.some.inj ha).symm
  | scheduleYielded =>
      obtain ⟨hs, hd⟩ := h.branch (by rw [hh]; rfl)
      cases ha
      exact ⟨fun _ => rfl, fun _ => .inr ⟨rfl, hd⟩, nofun⟩
  | destroying =>
      cases ha
      refine ⟨fun _ => rfl, fun hs => .inl ?_, nofun⟩
      exact (h.suspended hs).resolve_right fun hd => by rw [hh] at hd; cases hd.1

/-- The last handle is abandoned when the generator has published
`YieldedSuspended` and is about to go on by itself. -/
def abandonsAwake (s : State) (a : Action) : Bool :=
  match a, s.holder with
  | .holder _ _ _, .abandon =>
      s.status = .yieldedSuspended ∧ (s.own = .removeAwaiter .yield ∨ s.own = .setRunning .yield)
  | _, _ => false

theorem asleep_of_not_awake {b₁ b₂ b₃ : Bool} (hi : Inv s)
    (hg : abandonsAwake s (.holder b₁ b₂ b₃) = false) (hh : s.holder = .abandon)
    (hs : s.status = .yieldedSuspended) : s.own = .parked .yield := by
  have hyield := OwnPc.atYield_of_status hi.status (.inl hs)
  simp only [abandonsAwake, hh, hs, true_and, decide_eq_false_iff_not, not_or] at hg
  cases hown : s.own with
  | parked kind =>
      cases kind <;> first | rfl | simp [hown, OwnPc.atYield] at hyield
  | removeAwaiter kind =>
      cases kind <;> first | exact absurd hown hg.1 | simp [hown, OwnPc.atYield] at hyield
  | setRunning kind =>
      cases kind <;> first | exact absurd hown hg.2 | simp [hown, OwnPc.atYield] at hyield
  | _ => simp [hown, OwnPc.atYield] at hyield

theorem YieldDrop.step {a : Action} (h : YieldDrop s) (hi : Inv s)
    (hg : abandonsAwake s a = false) (ha : Lifecycle.step s a = some s') : YieldDrop s' := by
  have hi' : Inv s' := (hi.step ha).1
  obtain ⟨_, hs⟩ := Option.ite_none_left_eq_some.mp ha
  have hlive : ∀ {t : State}, s.holder.holdsHandle = true →
      t.holder = s.holder → t.status = s.status ∨ t.status = .suspended →
      t.completion = s.completion → t.destroyed = s.destroyed → YieldDrop t := by
    intro t hhold hholder hstatus hcompletion hdestroyed
    have hold := HolderPc.not_abandoned_of_holds hhold
    refine h.hold hold hcompletion hdestroyed (fun hs => ?_) fun hb => ?_
    · rcases hstatus with he | he <;> rw [he] at hs
      · exact absurd hs (hi.ne_of_not_abandoned hold)
      · cases hs
    · rw [hholder] at hb
      rw [HolderPc.hasAbandoned_of_inYielded hb] at hold
      cases hold
  cases a with
  | body b =>
      obtain ⟨hown, hb⟩ := Option.ite_none_right_eq_some.mp hs
      have hne : s.own ≠ .parked .yield := by rw [hown]; nofun
      cases b with
      | await kind =>
          obtain ⟨_, he⟩ := Option.ite_none_right_eq_some.mp hb
          cases he
          split
          · exact h
          · exact h.moveOwn rfl id hne (.inl rfl) fun hc => h.fresh (.inr hc)
      | yield =>
          obtain ⟨_, he⟩ := Option.ite_none_right_eq_some.mp hb
          cases he
          exact h.moveOwn rfl id hne (.inl rfl) fun hc => h.fresh (.inr hc)
      | finish =>
          cases hb
          exact h.moveOwn rfl id hne (.inl rfl) fun hc => h.fresh (.inr hc)
  | own => exact h.ownStep hi hi' hs
  | schedule =>
      cases hown : s.own with
      | parked kind =>
          simp only [hown] at hs
          obtain ⟨hk, he⟩ := Option.ite_none_right_eq_some.mp hs
          cases he
          refine h.moveOwn rfl id ?_ (.inl rfl) fun hc => h.fresh (.inr hc)
          rw [hown]
          rintro ⟨⟩
          cases hk
      | _ => simp [hown] at hs
  | completion => exact h.completionStep hi hs
  | await =>
      obtain ⟨⟨_, hhold, _⟩, he⟩ := Option.ite_none_right_eq_some.mp hs
      cases he
      exact hlive hhold rfl (.inl rfl) rfl rfl
  | consumer =>
      have hhold : s.holder.holdsHandle = true :=
        (hi.consumer fun hc => by rw [hc] at hs; cases hs).1
      cases hc : s.consumer with rw [hc] at hs
      | idle => cases hs
      | mark e =>
          cases hs
          split <;> exact hlive hhold rfl (.inr rfl) rfl rfl
      | start =>
          unfold consumerStep at hs
          cases hown : s.own with rw [hown] at hs
          | parked kind =>
              cases hs
              exact hlive hhold rfl (.inl rfl) rfl rfl
          | _ => cases hs
  | setCancelAbandoned b =>
      obtain ⟨hhold, he⟩ := Option.ite_none_right_eq_some.mp hs
      cases he
      exact hlive hhold rfl (.inl rfl) rfl rfl
  | cancel =>
      obtain ⟨hh, he⟩ := Option.ite_none_right_eq_some.mp hs
      cases he
      exact h.goHolder hh rfl rfl rfl rfl nofun nofun nofun
  | drop =>
      obtain ⟨⟨hh, _⟩, he⟩ := Option.ite_none_right_eq_some.mp hs
      cases he
      exact h.goHolder hh rfl rfl rfl rfl nofun nofun nofun
  | holder b₁ b₂ b₃ => exact h.holderStep hi (asleep_of_not_awake hi hg) hs

theorem yieldDrop_of_reachWhile
    (hs : system.ReachWhile (fun s a => abandonsAwake s a = false) s) : Inv s ∧ YieldDrop s := by
  refine hs.invariant (I := fun s => Inv s ∧ YieldDrop s) (fun s h => ?_)
    fun s a s' h hg ha => ⟨(h.1.step ha).1, h.2.step h.1 hg ha⟩
  obtain ⟨kind, cancelAbandoned, _, rfl⟩ := h
  refine ⟨inv_initial, ?_, nofun, nofun⟩
  rintro (hd | hc)
  · exact absurd hd (Nat.lt_irrefl 0)
  · cases hc

/-- While `destroyOrAbandon` acts on the `YieldedSuspended` that it has found, and for
ever if it destroys the frame, the generator stands still at its `co_yield`. -/
theorem yieldedSuspended_drop_suspended
    (hs : system.ReachWhile (fun s a => abandonsAwake s a = false) s)
    (hfound : s.holder.inYielded = true ∨
      s.status = .abandonedYieldSuspended ∧ (s.holder = .destroying ∨ 0 < s.destroyed)) :
    s.own = .parked .yield := by
  obtain ⟨_, h⟩ := yieldDrop_of_reachWhile hs
  rcases hfound with hb | ⟨hstatus, hd⟩
  · refine (h.suspended (h.branch hb).1).resolve_right fun hd => ?_
    rw [hd.1] at hb
    cases hb
  · refine (h.suspended hstatus).resolve_right fun hn => ?_
    rcases hd with hh | hd
    · rw [hn.1] at hh
      cases hh
    · omega

end Steps

/-- A generator is started, and its body comes to a `co_yield`. -/
def runsToYield : List Action :=
  List.replicate 3 (.own true true false false) ++ [.await, .consumer, .consumer] ++
    List.replicate 2 (.own true true false false) ++
    [.body .yield, .own true true false false, .own true true false false]

def dropMarks : List Action := .drop :: List.replicate 6 (.holder true true true)

theorem yieldedSuspended_drop_suspended_destroyed :
    ∃ s : State, s.destroyed = 1 ∧ s.own = .parked .yield := by
  let run := runsToYield ++ List.replicate 2 (.own true true false false) ++ dropMarks ++
    List.replicate 5 (.holder true true true)
  let M := system.restrict fun s a => abandonsAwake s a = false
  obtain ⟨s, hr, hdestroyed, hstatus⟩ := StepSystem.Reach.exists_of_exec (M := M)
    (P := fun s => s.destroyed = 1 ∧ s.status = .abandonedYieldSuspended) (s := initial .task true)
    (.start ⟨_, _, by simp, rfl⟩) run (by decide)
  exact ⟨s, hdestroyed,
    yieldedSuspended_drop_suspended hr.reachWhile (.inr ⟨hstatus, .inr (by omega)⟩)⟩

/-- The drop marks the generator cancelled before the generator reads the mark and
publishes `YieldedSuspended`; its thread goes on while the frame is destroyed. -/
theorem yieldedSuspended_drop_awake :
    ¬ ∀ s, system.Reach s → (s.holder.inYielded = true ∨
      s.status = .abandonedYieldSuspended ∧ (s.holder = .destroying ∨ 0 < s.destroyed)) →
      s.own = .parked .yield := by
  intro h
  let run := runsToYield ++ dropMarks ++ List.replicate 2 (.own true true false false) ++
    List.replicate 5 (.holder true true true)
  obtain ⟨s, hr, hstatus, hdestroyed, hown⟩ := StepSystem.Reach.exists_of_exec (M := system)
    (P := fun s => s.status = .abandonedYieldSuspended ∧ s.destroyed = 1 ∧
      s.own = .removeAwaiter .yield) (s := initial .task true) (.start ⟨_, _, by simp, rfl⟩) run
    (by decide)
  have hparked := h s hr (.inr ⟨hstatus, .inr (by omega)⟩)
  rw [hown] at hparked
  cases hparked

end LevelzAsync.Lifecycle
