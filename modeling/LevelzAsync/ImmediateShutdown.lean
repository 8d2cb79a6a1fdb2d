import LevelzAsync.LifecycleInvariant

/-!
# Resuming a coroutine on a pool that shuts down immediately

`Awaiter::onResume` looks at the state of the pool before it makes the coroutine
`Running`. When the pool is shutting down immediately it cancels the coroutine and
throws out of the await with the status that it found. The coroutine, its holder
and the others are those of `Lifecycle`; the cancellation that the coroutine makes
of itself is the code of the holder's.
-/

namespace LevelzAsync.ImmediateShutdown

open CoroutineStatus Lifecycle

/-- Where `onResume` is before its `setStatus(Running)`: it has not looked at the
pool, it has found that it may go on, or it is in `Coroutine::cancel` (there at
`holding` when that has returned). -/
inductive ResumePc
  | entered
  | proceeding
  | cancelling (cancel : HolderPc)
  deriving DecidableEq

structure State where
  co : Lifecycle.State
  resume : ResumePc
  /-- The state of the pool is `ShuttingDownImmediately`. -/
  shuttingDown : Bool
  deriving DecidableEq

/-- The pool begins to shut down, the coroutine goes on in `onResume` up to its
`setStatus(Running)`, or a step of `Lifecycle` is made. -/
inductive Action
  | shutdownImmediately
  | resume (onWorker maybeBlocked cancelled : Bool)
  | lifecycle (a : Lifecycle.Action)

def resumeStep (s : State) (onWorker maybeBlocked cancelled : Bool) : Option State :=
  match s.resume with
  | .entered =>
      some { s with resume :=
        if onWorker = true ∧ s.shuttingDown = true then .cancelling (.cancelCheck .holder)
        else .proceeding }
  | .proceeding => none
  -- `onResume` throws `CancellationError`
  | .cancelling .holding => some { s with co := { s.co with own := .body }, resume := .entered }
  | .cancelling cancel =>
      (holderStep { s.co with holder := cancel } maybeBlocked cancelled false cancel).map fun co =>
        { s with co := { co with holder := s.co.holder }, resume := .cancelling co.holder }

def isSetRunning : OwnPc → Bool
  | .setRunning _ => true
  | _ => false

def step (s : State) : Action → Option State
  | .shutdownImmediately => some { s with shuttingDown := true }
  | .resume onWorker maybeBlocked cancelled =>
      if s.co.aborted = false ∧ isSetRunning s.co.own = true then
        resumeStep s onWorker maybeBlocked cancelled
      else none
  | .lifecycle (.own b₁ b₂ b₃ b₄) =>
      if isSetRunning s.co.own = true ∧ s.resume ≠ .proceeding then none
      else (Lifecycle.step s.co (.own b₁ b₂ b₃ b₄)).map fun co =>
        { s with co := co, resume := .entered }
  | .lifecycle a => (Lifecycle.step s.co a).map fun co => { s with co := co }

def system : StepSystem State Action where
  start s := Lifecycle.system.start s.co ∧ s.resume = .entered ∧ s.shuttingDown = false
  step := step

/-- The transitions that the body makes next: to return and then to complete and
to suspend finally in either order, or, when it catches the error, to await or
to yield. -/
def acceptsNext (status : CoroutineStatus) : Bool :=
  (setStatus false status .suspended).isSome && (setStatus false status .yielded).isSome &&
    (setStatus false status .returned).any fun r =>
      (setStatus false r .completed).any (fun c => (setStatus true c .suspended).isSome) &&
        (setStatus true r .suspended).any fun f => (setStatus false f .completed).isSome

theorem acceptsNext_iff {status : CoroutineStatus} :
    acceptsNext status = true ↔ status = .running ∨ status = .abandoned := by
  cases status <;> decide

/-- When the shutdown makes `onResume` throw, the coroutine is running, because its
await did not suspend, or abandoned. -/
def ThrowsAwake (s : State) : Action → Prop
  | .resume _ _ _ =>
      s.resume = .cancelling .holding → s.co.status = .running ∨ s.co.status = .abandoned
  | _ => True

instance (s : State) (a : Action) : Decidable (ThrowsAwake s a) := by
  unfold ThrowsAwake
  split <;> infer_instance

/-- Where the awaiter of a suspension can be in `m_awaiters`. -/
def listed : OwnPc → Bool
  | .suspendRead kind | .suspend kind _ _ | .parked kind | .removeAwaiter kind => kind.isRegistered
  | _ => false

def Listed (co : Lifecycle.State) : Prop := co.awaiterListed = true → listed co.own = true

section Listed

variable {co co' : Lifecycle.State}

theorem Listed.of_false (h : co'.awaiterListed = false) : Listed co' := by
  intro ht
  rw [h] at ht
  cases ht

theorem Listed.unlisted (h : Listed co) (hown : listed co.own = false) :
    co.awaiterListed = false := by
  by_contra ht
  rw [h (by simpa using ht)] at hown
  cases hown

theorem Listed.congr (h : Listed co) (hown : listed co'.own = listed co.own)
    (hlisted : co'.awaiterListed = true → co.awaiterListed = true) : Listed co' := by
  intro ht
  rw [hown]
  exact h (hlisted ht)

theorem Listed.setStatus {isFinal : Bool} {status : CoroutineStatus}
    {next : CoroutineStatus → Lifecycle.State → Lifecycle.State} (h : Listed co)
    (hnext : ∀ new prev, Listed (next prev { co with status := new })) :
    Listed (co.setStatus isFinal status next) := by
  unfold State.setStatus
  split
  · exact hnext _ _
  · exact h

theorem Listed.ownStep {b₁ b₂ b₃ b₄ : Bool} (h : Listed co)
    (hs : ownStep co b₁ b₂ b₃ b₄ co.own = some co') : Listed co' := by
  cases hown : co.own with
  | ready kind =>
      have hfree := h.unlisted (by rw [hown]; rfl)
      rw [hown] at hs
      cases hs
      intro ht
      simp only [hfree, Bool.false_or] at ht
      by_cases hk : kind = .final
      · subst hk
        cases ht
      · simp only [if_neg hk]
        split <;> exact ht
  | suspendRead kind =>
      rw [hown] at hs
      cases hs
      intro ht
      have := h ht
      rwa [hown] at this
  | suspend kind isCancelled shouldCancelAbandoned =>
      rw [hown] at hs
      cases hs
      refine h.setStatus fun new prev ht => ?_
      have := h ht
      rw [hown] at this
      by_cases hk : kind = .final
      · subst hk
        cases this
      · simp only [if_neg hk]
        split <;> exact this
  | removeAwaiter kind =>
      rw [hown] at hs
      cases hs
      refine .of_false ?_
      cases hk : kind.isRegistered with
      | true => simp
      | false =>
          have hfree := h.unlisted (by rw [hown]; exact hk)
          simp [hfree]
  | parked | finalSuspended | body | destroyed =>
      rw [hown] at hs
      cases hs
  | setRunning | setYielded | setReturned | setCompleted =>
      have hfree := h.unlisted (by rw [hown]; rfl)
      rw [hown] at hs
      cases hs
      exact h.setStatus fun _ _ => .of_false hfree
  | spinPaused | countCheck | countDownLast | signalOwner | enqueueCompletedState | countDown
  | destroying =>
      have hfree := h.unlisted (by rw [hown]; rfl)
      rw [hown] at hs
      cases hs
      exact .of_false hfree

theorem Listed.holderStep {b₁ b₂ b₃ : Bool} {holder : HolderPc} (h : Listed co)
    (hs : holderStep co b₁ b₂ b₃ holder = some co') : Listed co' := by
  have hstatus : ∀ {isFinal : Bool} {status : CoroutineStatus}
      {next : CoroutineStatus → Lifecycle.State → Lifecycle.State},
      (∀ prev co, (next prev co).own = co.own ∧ (next prev co).awaiterListed = co.awaiterListed) →
        Listed (co.setStatus isFinal status next) := by
    intro isFinal status next hnext
    refine h.setStatus fun new prev => ?_
    obtain ⟨h₁, h₂⟩ := hnext prev { co with status := new }
    exact h.congr (by rw [h₁]) fun ht => by rwa [h₂] at ht
  cases holder with
  | pause | resume | abandon =>
      cases hs
      exact hstatus fun _ _ => ⟨rfl, rfl⟩
  | takeAwaiter =>
      cases hs
      split
      · exact .of_false rfl
      · exact h
  | scheduleYielded =>
      cases hs
      by_cases hown : co.own = .parked .yield
      · exact h.congr (by simp [hown, listed]) id
      · exact h.congr (by simp [hown]) id
  | holding | dropped => cases hs
  | _ =>
      cases hs
      exact h

theorem Listed.step {a : Lifecycle.Action} (h : Listed co) (hs : Lifecycle.step co a = some co') :
    Listed co' := by
  obtain ⟨_, hs⟩ := Option.ite_none_left_eq_some.mp hs
  cases a with
  | body b =>
      obtain ⟨hown, hb⟩ := Option.ite_none_right_eq_some.mp hs
      have hfree := h.unlisted (by rw [hown]; rfl)
      cases b with
      | await kind =>
          obtain ⟨_, he⟩ := Option.ite_none_right_eq_some.mp hb
          cases he
          split <;> exact .of_false hfree
      | yield =>
          obtain ⟨_, he⟩ := Option.ite_none_right_eq_some.mp hb
          cases he
          exact .of_false hfree
      | finish =>
          cases hb
          exact .of_false hfree
  | own => exact h.ownStep hs
  | schedule =>
      cases hown : co.own with
      | parked kind =>
          simp only [hown] at hs
          obtain ⟨_, he⟩ := Option.ite_none_right_eq_some.mp hs
          cases he
          exact h.congr (by rw [hown]; rfl) id
      | _ => simp [hown] at hs
  | completion =>
      cases hc : co.completion with
      | setCompleted =>
          simp only [hc] at hs
          cases hs
          refine h.setStatus fun _ _ => ?_
          exact h.congr rfl id
      | waiting | signalOwner | destroying =>
          simp only [hc] at hs
          cases hs
          exact h
      | none | enqueued | finished =>
          simp only [hc] at hs
          cases hs
  | await =>
      obtain ⟨_, he⟩ := Option.ite_none_right_eq_some.mp hs
      cases he
      exact h
  | consumer =>
      cases hc : co.consumer with
      | idle =>
          simp only [hc] at hs
          cases hs
      | mark expected =>
          simp only [hc] at hs
          cases hs
          split <;> exact h
      | start =>
          simp only [hc, consumerStep] at hs
          cases hown : co.own with
          | parked kind =>
              simp only [hown] at hs
              cases hs
              exact h.congr (by rw [hown]; rfl) id
          | _ => simp [hown] at hs
  | setCancelAbandoned =>
      obtain ⟨_, he⟩ := Option.ite_none_right_eq_some.mp hs
      cases he
      exact h
  | cancel =>
      obtain ⟨_, he⟩ := Option.ite_none_right_eq_some.mp hs
      cases he
      exact h
  | drop =>
      obtain ⟨_, he⟩ := Option.ite_none_right_eq_some.mp hs
      cases he
      exact h
  | holder => exact h.holderStep hs

end Listed

section Runs

variable {s s' : State} {cancel : HolderPc}

/-- How far `cancel` goes in a coroutine that has no awaiter. -/
def withoutAwaiter : HolderPc → Bool
  | .holding | .cancelCheck .holder | .cancelMark .holder | .cancelStatus .holder
  | .cancelEmpty .holder => true
  | _ => false

structure Inv (s : State) : Prop where
  inv : Lifecycle.Inv s.co
  listed : Listed s.co
  cancelling : ∀ cancel, s.resume = .cancelling cancel → withoutAwaiter cancel = true

theorem inv_congr {co co' : Lifecycle.State} (hi : Lifecycle.Inv co)
    (hstatus : co'.status = co.status) (hown : co'.own = co.own)
    (hcompletion : co'.completion = co.completion)
    (hholder : co'.holder = co.holder) (hconsumer : co'.consumer = co.consumer) :
    Lifecycle.Inv co' where
  status := by
    rw [hstatus, hown, hcompletion, hholder]
    exact hi.status
  completion := by
    rw [hown, hcompletion]
    exact hi.completion
  holder := hholder ▸ hi.holder
  consumer := by
    rw [hconsumer, hholder, hown]
    exact hi.consumer
  mark := by
    rw [hconsumer, hstatus]
    exact hi.mark

/-- The coroutine cancels itself: it sets `m_cancelled`, and finds no awaiter. -/
theorem ownCancel_spec {b₁ b₂ : Bool} {co co' : Lifecycle.State}
    (hcancel : withoutAwaiter cancel = true) (hlisted : co.awaiterListed = false)
    (hs : holderStep { co with holder := cancel } b₁ b₂ false cancel = some co') :
    withoutAwaiter co'.holder = true ∧
      ∃ cancelled, co' = { co with holder := co'.holder, cancelled := cancelled } := by
  cases cancel with
  | cancelCheck caller | cancelStatus caller =>
      cases caller with
      | holder =>
          cases hs
          refine ⟨?_, co.cancelled, rfl⟩
          simp only
          split <;> rfl
      | drop | abandonedYield => cases hcancel
  | cancelMark caller =>
      cases caller with
      | holder =>
          cases hs
          exact ⟨rfl, true, rfl⟩
      | drop | abandonedYield => cases hcancel
  | cancelEmpty caller =>
      cases caller with
      | holder =>
          have he := Option.some.inj hs
          subst he
          simp only [hlisted]
          exact ⟨rfl, co.cancelled, by rw [← hlisted]⟩
      | drop | abandonedYield => cases hcancel
  | holding => cases hs
  | _ => cases hcancel

/-- A coroutine that leaves `onResume` while it is awake stands where a body may. -/
theorem inv_body {co : Lifecycle.State} (hi : Lifecycle.Inv co) (hown : isSetRunning co.own = true)
    (hawake : co.status = .running ∨ co.status = .abandoned) :
    Lifecycle.Inv { co with own := .body } := by
  cases hp : co.own with
  | setRunning kind =>
      have hstatus := hi.status
      have hcompletion := hi.completion
      rw [hp] at hstatus hcompletion
      refine hi.moveOwn (hi.idle (by simp [hp]) (by simp [hp])) ?_ hcompletion rfl rfl
      simp only [OwnPc.statuses] at hstatus ⊢
      cases ha : co.holder.hasAbandoned <;> cases hb : co.holder.isPausing <;> cases kind <;>
        rcases hawake with h | h <;>
        simp_all [OwnPc.leavingStatuses, OwnPc.awakeStatuses]
  | _ =>
      rw [hp] at hown
      cases hown

theorem Inv.resumeStep {b₁ b₂ b₃ : Bool} (h : Inv s) (hg : ThrowsAwake s (.resume b₁ b₂ b₃))
    (hown : isSetRunning s.co.own = true) (hs : resumeStep s b₁ b₂ b₃ = some s') :
    Inv s' ∧ s'.co.aborted = s.co.aborted := by
  have hfree : s.co.awaiterListed = false := by
    refine h.listed.unlisted ?_
    cases hp : s.co.own with
    | setRunning => rfl
    | _ =>
        rw [hp] at hown
        cases hown
  unfold ImmediateShutdown.resumeStep at hs
  split at hs
  · cases hs
    refine ⟨⟨h.inv, h.listed, fun cancel hc => ?_⟩, rfl⟩
    simp only at hc
    split at hc
    · cases hc
      rfl
    · cases hc
  · cases hs
  · next hresume =>
    cases hs
    exact ⟨⟨inv_body h.inv hown (hg hresume), .of_false hfree, nofun⟩, rfl⟩
  · next cancel _ hresume =>
    obtain ⟨co', hco, he⟩ := Option.map_eq_some_iff.mp hs
    obtain ⟨hcancel, cancelled, hco'⟩ := ownCancel_spec (h.cancelling cancel hresume) hfree hco
    subst he
    have hback : ({ co' with holder := s.co.holder } : Lifecycle.State) =
        { s.co with cancelled := cancelled } := by rw [hco']
    simp only [hback]
    refine ⟨⟨inv_congr h.inv rfl rfl rfl rfl rfl, h.listed, fun c hc => ?_⟩, by rw [hco']⟩
    cases hc
    exact hcancel

theorem Inv.lifecycleStep {a : Lifecycle.Action} (h : Inv s)
    (hs : step s (.lifecycle a) = some s') :
    Inv s' ∧ (s'.co.aborted = true → pausesFinished s.co a = true) := by
  have hresult : ∀ {co : Lifecycle.State} {resume : ResumePc}, Lifecycle.step s.co a = some co →
      (∀ cancel, resume = .cancelling cancel → withoutAwaiter cancel = true) →
      Inv { s with co := co, resume := resume } ∧
        (co.aborted = true → pausesFinished s.co a = true) := by
    intro co resume hco hresume
    obtain ⟨hi, habort⟩ := h.inv.step hco
    exact ⟨⟨hi, h.listed.step hco, hresume⟩, habort⟩
  unfold ImmediateShutdown.step at hs
  split at hs
  · cases ‹Action.lifecycle a = Action.shutdownImmediately›
  · cases ‹Action.lifecycle a = Action.resume _ _ _›
  · next b₁ b₂ b₃ b₄ ha =>
    obtain rfl := Action.lifecycle.inj ha
    obtain ⟨_, hs⟩ := Option.ite_none_left_eq_some.mp hs
    obtain ⟨co, hco, rfl⟩ := Option.map_eq_some_iff.mp hs
    exact hresult hco nofun
  · next _ ha =>
    obtain rfl := Action.lifecycle.inj ha
    obtain ⟨co, hco, rfl⟩ := Option.map_eq_some_iff.mp hs
    exact hresult hco h.cancelling

theorem Inv.step {a : Action} (h : Inv s) (hg : ThrowsAwake s a) (hs : step s a = some s') :
    Inv s' ∧ (s'.co.aborted = true → s.co.aborted = true ∨
      ∃ b₁ b₂ b₃, a = .lifecycle (.holder b₁ b₂ b₃)) := by
  cases a with
  | shutdownImmediately =>
      cases hs
      exact ⟨⟨h.inv, h.listed, h.cancelling⟩, .inl⟩
  | resume b₁ b₂ b₃ =>
      obtain ⟨⟨_, hown⟩, hs⟩ := Option.ite_none_right_eq_some.mp hs
      obtain ⟨h', habort⟩ := h.resumeStep hg hown hs
      exact ⟨h', fun ha => .inl (habort ▸ ha)⟩
  | lifecycle a =>
      obtain ⟨h', habort⟩ := h.lifecycleStep hs
      refine ⟨h', fun ha => .inr ?_⟩
      have hp := habort ha
      cases a with
      | holder b₁ b₂ b₃ => exact ⟨b₁, b₂, b₃, rfl⟩
      | _ => cases hp

theorem inv_of_reachWhile (hs : system.ReachWhile ThrowsAwake s) : Inv s := by
  refine hs.invariant (fun s h => ?_) fun s a s' hi hg ha => (hi.step hg ha).1
  obtain ⟨⟨kind, cancelAbandoned, _, hco⟩, hresume, _⟩ := h
  refine ⟨hco ▸ inv_initial, .of_false (by rw [hco]; rfl), fun cancel hc => ?_⟩
  rw [hresume] at hc
  cases hc

/-- When the shutdown only throws out of awaits of running or abandoned coroutines, a
body always goes on with a status that accepts its next transitions, and no
transition aborts but one of a holder of the handle. -/
theorem onResume_accepts_next (hs : system.ReachWhile ThrowsAwake s) :
    (s.co.own = .body → acceptsNext s.co.status = true) ∧
    ∀ a s', ThrowsAwake s a → step s a = some s' → s.co.aborted = false →
      (∀ b₁ b₂ b₃, a ≠ .lifecycle (.holder b₁ b₂ b₃)) → s'.co.aborted = false := by
  have h := inv_of_reachWhile hs
  refine ⟨fun hown => ?_, fun a s' hg ha halive hnot => ?_⟩
  · have hstatus := h.inv.status
    rw [hown] at hstatus
    rw [acceptsNext_iff]
    cases hb : s.co.holder.isPausing <;> cases hc : s.co.holder.hasAbandoned <;>
      simp_all [OwnPc.statuses, OwnPc.awakeStatuses]
  · by_contra habort
    rcases (h.step hg ha).2 (by simpa using habort) with halive' | ⟨b₁, b₂, b₃, he⟩
    · exact absurd (halive.symm.trans halive') (by decide)
    · exact hnot b₁ b₂ b₃ he

end Runs

def initialState (kind : TaskKind) : State where
  co := initial kind true
  resume := .entered
  shuttingDown := false

/-- Its first steps bring a coroutine to its await of an event; there the event is
already set, or it is suspended and resumed later. -/
def awaitsEvent (settled : Bool) : List Action :=
  ([.own true true false false, .own true true false false, .own true true false false,
    .schedule, .own true true false false].map .lifecycle) ++ [.resume true false false] ++
  ([.own true true false false, .body (.await .event), .own true true settled false].map .lifecycle)

/-- The pool begins to shut down, and `onResume` throws after `n` steps. -/
def throws (n : ℕ) : List Action :=
  .shutdownImmediately :: List.replicate n (.resume true false false)

theorem onResume_accepts_next_running : ∃ s, system.Reach s ∧ s.shuttingDown = true ∧
    s.co.own = .body ∧ s.co.cancelled = true ∧ acceptsNext s.co.status = true := by
  obtain ⟨s, hs, hdown, hown, hcancelled⟩ :=
    StepSystem.Reach.exists_of_exec (M := system.restrict ThrowsAwake)
      (P := fun s => s.shuttingDown = true ∧ s.co.own = .body ∧ s.co.cancelled = true)
      (s := initialState .async) (.start ⟨⟨_, _, by decide, rfl⟩, rfl, rfl⟩)
      (awaitsEvent true ++ [.lifecycle (.own true true false false)] ++ throws 5) (by decide)
  have hg := hs.reachWhile
  exact ⟨s, hg.reach, hdown, hown, hcancelled, (onResume_accepts_next hg).1 hown⟩

/-- The coroutine was suspended on the event when the pool began to shut down. -/
theorem onResume_leaves_suspended : ∃ s, system.Reach s ∧ s.co.holder = .holding ∧
    s.co.own = .setReturned ∧ s.co.status = .suspended ∧ s.co.aborted = true :=
  StepSystem.Reach.exists_of_exec (M := system)
    (P := fun s => s.co.holder = .holding ∧ s.co.own = .setReturned ∧ s.co.status = .suspended ∧
      s.co.aborted = true)
    (s := initialState .async) (.start ⟨⟨_, _, by decide, rfl⟩, rfl, rfl⟩)
    (awaitsEvent false ++ ([.own true true false false, .own true true false false, .schedule,
      .own true true false false].map .lifecycle) ++ throws 6 ++
      [.lifecycle (.body .finish), .lifecycle (.own true true false false)]) (by decide)

end LevelzAsync.ImmediateShutdown
