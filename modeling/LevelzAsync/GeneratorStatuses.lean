import LevelzAsync.Generator

/-!
# The statuses of a generator and its consumer

Without a cancellation the statuses of the two coroutines follow from where they
stand. The generator's depends besides on whether the consumer has marked it for
the start, and on whether its completion is still to come. Whichever of the two
goes on does so in a chain with an allowance above 0, unless the consumer awaits a
generator that is done.
-/

namespace LevelzAsync.Generator

open CoroutineStatus TaskAwait

def consumerStatuses : ConsumerPc → List CoroutineStatus
  | .body | .ready | .readyDone | .suspendRead | .suspend _ => [running]
  | .taskStatus | .taskDone | .markTask _ | .storeContinuation | .setMaybeBlocked
  | .suspended => [suspended]
  | .clearContinuation | .removeAwaiter | .setRunning => [running, suspended]
  | .spinPaused => []

def hasMarked : ConsumerPc → Bool
  | .storeContinuation | .setMaybeBlocked | .suspended => true
  | _ => false

def taskStatuses (marked completionPending : Bool) : TaskPc → List CoroutineStatus
  | .notStarted => [if marked = true then suspended else notStarted]
  | .yielded => [if marked = true then suspended else yieldedSuspended]
  | .setRunning => [suspended]
  | .body => [running, suspended]
  | .setYielded | .setReturned => [running]
  | .readContinuation | .readyYield _ | .suspendRead _ | .suspendYield _ _ => [yielded]
  | .resumeFromYield _ => [yieldedSuspended]
  | .exchangeContinuation | .complete _ => [returned]
  | .readyFinal _ | .suspendFinal _ =>
      [if completionPending = true then returned else returnedCompleted]
  | .resumeFromFinal _ | .finished =>
      [if completionPending = true then finalSuspended else completedFinalSuspended]

def handsOver : TaskPc → Bool
  | .readyYield _ | .suspendRead _ | .suspendYield _ _ | .resumeFromYield _ | .complete _
  | .readyFinal _ | .suspendFinal _ | .resumeFromFinal _ => true
  | _ => false

/-- The completed-state task may have been enqueued. -/
def mayComplete : TaskPc → Bool
  | .readyFinal _ | .suspendFinal _ | .resumeFromFinal _ | .finished => true
  | _ => false

/-- The consumer is on its way to `recordChainedExecution`. -/
def goesOn : ConsumerPc → Bool
  | .clearContinuation | .removeAwaiter | .setRunning | .spinPaused => true
  | _ => false

/-- `await_ready` has found that the task is not done. -/
def isUndone : ConsumerPc → Bool
  | .suspendRead | .suspend _ | .taskStatus | .taskDone => true
  | _ => false

/-- `await_suspend` is about to start the task. -/
def starts : ConsumerPc → Bool
  | .taskStatus | .taskDone | .markTask _ | .storeContinuation | .setMaybeBlocked => true
  | _ => false

/-- The consumer is not resumed into a chain without an allowance. -/
def handsAllowed : TaskPc → Bool
  | .resumeFromYield allowed | .resumeFromFinal allowed => allowed
  | _ => true

/-- The chains that come to `recordChainedExecution` have an allowance. -/
structure Allowed (s : TaskAwait.State) : Prop where
  goesOn : goesOn s.consumer = true → s.allowed = true
  ready : s.consumer = .readyDone → s.task = .finished → s.allowed = true
  undone : isUndone s.consumer = true → s.task ≠ .finished
  starts : starts s.consumer = true ∨ s.launching = true ∨ s.task = .setRunning →
    s.taskAllowed = true
  hands : handsAllowed s.task = true
  assertFailed : s.assertFailed = false

structure Steady (s : TaskAwait.State) : Prop where
  inv : TaskAwait.Inv s
  cancelled : s.cancelled = false
  taskCancelled : s.taskCancelled = false
  canceller : s.canceller = .idle
  aborted : s.aborted = false
  status : s.status ∈ consumerStatuses s.consumer
  taskStatus : s.taskStatus ∈ taskStatuses (hasMarked s.consumer) s.completionPending s.task
  mark : ∀ expected, s.consumer = .markTask expected → s.taskStatus = expected
  done : s.consumer ≠ .taskDone
  launching : s.consumer = .suspended → s.task.isSettled = true → s.launching = true
  handsOver : handsOver s.task = true → s.task.copies = true ∨ s.task.carries = true
  suspend : s.consumer ≠ .suspend true
  suspendYield : ∀ copy, s.task ≠ .suspendYield copy true
  completion : s.completionPending = true → mayComplete s.task = true
  allowed : Allowed s

theorem onReady_suspends {kind : AwaiterKind} {sameThreadPoolKind canDoChainedExecution : Bool}
    {status : CoroutineStatus} (h : status ≠ abandonedCompleted) :
    kind.onReady sameThreadPoolKind canDoChainedExecution status false false ≠
      .shouldNotSuspend := by
  unfold AwaiterKind.onReady
  split_ifs <;> simp_all

theorem onSuspend_suspends {kind : AwaiterKind} {sameThreadPoolKind canDoChainedExecution : Bool}
    {status : CoroutineStatus} (h : status ≠ abandonedCompleted) :
    kind.onSuspend sameThreadPoolKind canDoChainedExecution status false false ≠
      .shouldNotSuspend := by
  unfold AwaiterKind.onSuspend
  split_ifs <;> simp_all

theorem chainAllows_onSuspend {kind : AwaiterKind}
    {sameThreadPoolKind canDoChainedExecution shouldCancelAbandoned isCancelled : Bool}
    {status : CoroutineStatus} (h : status ≠ abandonedCompleted) :
    chainAllows (kind.onSuspend sameThreadPoolKind canDoChainedExecution status
      shouldCancelAbandoned isCancelled) canDoChainedExecution = true := by
  unfold chainAllows AwaiterKind.onSuspend
  cases canDoChainedExecution <;> simp [h]

def hasWritten : TaskPc → Bool
  | .notStarted | .setRunning | .body | .yielded | .finished => false
  | _ => true

def isOver : TaskPc → Bool
  | .setReturned => true
  | p => p.hasReturned

/-- An await under way finds its result in `m_value`. -/
def gives (consumer : ConsumerPc) (task : TaskPc) : Bool :=
  match consumer with
  | .body | .clearContinuation | .removeAwaiter | .setRunning | .spinPaused => true
  | .suspended => hasWritten task
  | _ => false

def taskRank (task : TaskPc) (status : CoroutineStatus) : ℕ :=
  match task with
  | .finished => 0
  | .resumeFromYield _ | .resumeFromFinal _ => 1
  | .suspendYield _ _ | .suspendFinal _ => 2
  | .suspendRead _ | .readyFinal _ => 3
  | .readyYield _ | .complete _ => 4
  | .readContinuation | .exchangeContinuation => 5
  | .setYielded | .setReturned => 6
  | .body => if status = running then 7 else 8
  | .setRunning => 9
  | .notStarted | .yielded => 10

def rank (consumer : ConsumerPc) (task : TaskPc) (status : CoroutineStatus) : ℕ :=
  match consumer with
  | .body => 1
  | .spinPaused => 2
  | .setRunning => 3
  | .removeAwaiter => 4
  | .clearContinuation => 5
  | .suspended => 6 + taskRank task status
  | .setMaybeBlocked => 30
  | .storeContinuation => 31
  | .markTask _ | .taskDone => 32
  | .taskStatus => 33
  | .suspend _ => 34
  | .suspendRead => 35
  | .readyDone => 36
  | .ready => 37

/-- The await is one step nearer to its result, which stays what it was unless the
task had finished before. -/
structure Advances (s s' : TaskAwait.State) : Prop where
  ended : isOver s'.task = isOver s.task
  result : gives s'.consumer s'.task = gives s.consumer s.task ∨
    gives s'.consumer s'.task = true ∧ s'.task = .finished
  nearer : rank s'.consumer s'.task s'.taskStatus < rank s.consumer s.task s.taskStatus
  fresh : s'.task = .notStarted → s.task = .notStarted

section Steps

variable {s s' : TaskAwait.State}

theorem taskRank_le (task : TaskPc) (status : CoroutineStatus) : taskRank task status ≤ 10 := by
  unfold taskRank
  split <;> (try split) <;> omega

theorem suspended_mem_taskStatuses {p : TaskPc} {completionPending : Bool}
    (h : p.isParked = true) :
    CoroutineStatus.suspended ∈ taskStatuses true completionPending p := by
  cases p <;> simp_all [TaskPc.isParked, taskStatuses]

theorem hasWritten_of_parked {p : TaskPc} (h : p.isParked = true) : hasWritten p = false := by
  cases p <;> simp_all [TaskPc.isParked, hasWritten]

theorem Advances.awaits (h : Advances s s') : s.consumer ≠ .body := by
  intro hc
  have hnearer := h.nearer
  rw [hc] at hnearer
  cases hc' : s'.consumer <;> rw [hc'] at hnearer <;> simp only [rank] at hnearer <;> omega

theorem Advances.ofConsumer {c c' : ConsumerPc} (hc : s.consumer = c) (hc' : s'.consumer = c')
    (htask : s'.task = s.task)
    (hresult : gives c' s.task = gives c s.task ∨ gives c' s.task = true ∧ s.task = .finished)
    (hnearer : rank c' s.task s'.taskStatus < rank c s.task s.taskStatus) : Advances s s' := by
  subst hc hc'
  exact ⟨by rw [htask], by rwa [htask], by rwa [htask], fun h => htask.symm.trans h⟩

theorem Advances.ofTask {p p' : TaskPc} (hc : s.consumer = .suspended)
    (hc' : s'.consumer = s.consumer) (hp : s.task = p) (hp' : s'.task = p')
    (hover : isOver p' = isOver p) (hwritten : hasWritten p' = hasWritten p)
    (hnearer : taskRank p' s'.taskStatus < taskRank p s.taskStatus) : Advances s s' := by
  subst hp hp'
  rw [hc] at hc'
  refine ⟨hover, .inl ?_, ?_, fun hf => ?_⟩
  · rw [hc, hc']
    exact hwritten
  · rw [hc, hc']
    exact Nat.add_lt_add_left hnearer 6
  · have := taskRank_le s.task s.taskStatus
    have hten : taskRank .notStarted s'.taskStatus = 10 := rfl
    rw [hf, hten] at hnearer
    omega

theorem Advances.ofResume {p p' : TaskPc} (hc : s.consumer = .suspended)
    (hc' : s'.consumer = .clearContinuation) (hp : s.task = p) (hp' : s'.task = p')
    (hfresh : p' ≠ .notStarted) (hover : isOver p' = isOver p) (hwritten : hasWritten p = true) :
    Advances s s' := by
  subst hp hp'
  refine ⟨hover, .inl ?_, ?_, fun hf => absurd hf hfresh⟩
  · rw [hc, hc']
    exact hwritten.symm
  · rw [hc, hc']
    simp only [rank]
    omega

/-- The task is at work only while the consumer is suspended. -/
theorem Steady.consumer_suspended (h : Steady s)
    (hs : s.task.isSettled = false ∨ s.launching = true) : s.consumer = .suspended := by
  rcases h.inv.settled hs with hc | ⟨hc, _⟩
  · exact hc
  · rw [h.cancelled] at hc
    cases hc

theorem Steady.settled (h : Steady s) (hc : s.consumer ≠ .suspended) :
    s.task.isSettled = true ∧ s.launching = false := by
  constructor
  · by_contra hs
    exact hc (h.consumer_suspended (.inl (by simpa using hs)))
  · by_contra hs
    exact hc (h.consumer_suspended (.inr (by simpa using hs)))

theorem cancelsUncopied_of_idle {a : TaskAwait.Action} (hc : s.canceller = .idle) :
    cancelsUncopied s a = true := by
  unfold cancelsUncopied
  split
  · rw [hc]
  · rfl

section Allowed

variable {c c' : ConsumerPc} {status taskStatus : CoroutineStatus}
  {awaiterListed maybeBlocked continuation : Bool}

theorem Allowed.goConsumer (h : Allowed s) (hc : s.consumer = c) (hready : c' ≠ .readyDone)
    (hgoesOn : Generator.goesOn c' = true → Generator.goesOn c = true)
    (hundone : isUndone c' = true → isUndone c = true)
    (hstarts : Generator.starts c' = true → Generator.starts c = true) :
    Allowed { s with
      status := status
      taskStatus := taskStatus
      awaiterListed := awaiterListed
      maybeBlocked := maybeBlocked
      continuation := continuation
      consumer := c' } := by
  subst hc
  exact
    { goesOn := fun hg => h.goesOn (hgoesOn hg)
      ready := fun hr => absurd hr hready
      undone := fun hu => h.undone (hundone hu)
      starts := fun hs => h.starts (hs.imp_left hstarts)
      hands := h.hands
      assertFailed := h.assertFailed }

theorem Allowed.goTask (h : Allowed s) (hc : s'.consumer = .suspended)
    (hlaunching : s'.launching = false) (htask : s'.task ≠ .setRunning)
    (hhands : handsAllowed s'.task = true) (hfailed : s'.assertFailed = s.assertFailed) :
    Allowed s' where
  goesOn := by
    rw [hc]
    nofun
  ready := by
    rw [hc]
    nofun
  undone := by
    rw [hc]
    nofun
  starts := by
    rw [hc, hlaunching]
    rintro (hs | hs | hs)
    · cases hs
    · cases hs
    · exact absurd hs htask
  hands := hhands
  assertFailed := hfailed.trans h.assertFailed

end Allowed

theorem Steady.goConsumer (h : Steady s) (hi : TaskAwait.Inv s')
    (hcancelled : s'.cancelled = s.cancelled) (htaskCancelled : s'.taskCancelled = s.taskCancelled)
    (hcanceller : s'.canceller = s.canceller) (haborted : s'.aborted = s.aborted)
    (htask : s'.task = s.task) (hpending : s'.completionPending = s.completionPending)
    (hstatus : s'.status ∈ consumerStatuses s'.consumer)
    (htaskStatus : s'.taskStatus ∈
      taskStatuses (hasMarked s'.consumer) s.completionPending s.task)
    (hmark : ∀ expected, s'.consumer = .markTask expected → s'.taskStatus = expected)
    (hdone : s'.consumer ≠ .taskDone)
    (hlaunching : s'.consumer = .suspended → s'.launching = true)
    (hsuspend : s'.consumer ≠ .suspend true) (hallowed : Allowed s') : Steady s' where
  inv := hi
  cancelled := hcancelled.trans h.cancelled
  taskCancelled := htaskCancelled.trans h.taskCancelled
  canceller := hcanceller.trans h.canceller
  aborted := haborted.trans h.aborted
  status := hstatus
  taskStatus := by rwa [htask, hpending]
  mark := hmark
  done := hdone
  launching hs _ := hlaunching hs
  handsOver := by
    rw [htask]
    exact h.handsOver
  suspend := hsuspend
  suspendYield := by
    rw [htask]
    exact h.suspendYield
  completion := by
    rw [htask, hpending]
    exact h.completion
  allowed := hallowed

/-- A consumer that has not marked the task finds it at rest. -/
theorem Steady.taskStatus_cases (h : Steady s) (hc : s.consumer ≠ .suspended)
    (hmarked : hasMarked s.consumer = false) :
    s.task = .notStarted ∧ s.taskStatus = notStarted ∨
      s.task = .yielded ∧ s.taskStatus = yieldedSuspended ∨
      s.task = .finished ∧ s.taskStatus.isDone = true := by
  have hsettled := (h.settled hc).1
  have hstatus := h.taskStatus
  rw [hmarked] at hstatus
  cases ht : s.task with
  | notStarted =>
      rw [ht] at hstatus
      exact .inl ⟨rfl, by simpa [taskStatuses] using hstatus⟩
  | yielded =>
      rw [ht] at hstatus
      exact .inr (.inl ⟨rfl, by simpa [taskStatuses] using hstatus⟩)
  | finished =>
      rw [ht] at hstatus
      refine .inr (.inr ⟨rfl, ?_⟩)
      cases hp : s.completionPending <;> simp_all [taskStatuses, isDone]
  | _ =>
      rw [ht] at hsettled
      cases hsettled

theorem Steady.finished_iff (h : Steady s) (hc : s.consumer ≠ .suspended)
    (hmarked : hasMarked s.consumer = false) : s.task = .finished ↔ s.taskStatus.isDone = true := by
  rcases h.taskStatus_cases hc hmarked with ⟨ht, hs⟩ | ⟨ht, hs⟩ | ⟨ht, hs⟩
  · rw [ht, hs]
    exact ⟨nofun, nofun⟩
  · rw [ht, hs]
    exact ⟨nofun, nofun⟩
  · exact ⟨fun _ => hs, fun _ => ht⟩

theorem Steady.consumerStep {b₁ b₂ : Bool} (h : Steady s) (hi : TaskAwait.Inv s')
    (ha : consumerStep s b₁ b₂ s.consumer = some s')
    (hg : s.consumer = .ready → b₂ = false → s.taskStatus.isDone = false) :
    Steady s' ∧ Advances s s' := by
  have hstatus := h.status
  have htask := h.taskStatus
  cases hc : s.consumer with
  | body | suspended =>
      rw [hc] at ha
      cases ha
  | spinPaused =>
      rw [hc] at hstatus
      cases hstatus
  | ready =>
      have hdone := h.finished_iff (by rw [hc]; nofun) (by rw [hc]; rfl)
      rw [hc] at ha hstatus htask
      have hrunning : s.status = running := by simpa [consumerStatuses] using hstatus
      have hadvice : ∀ kind : AwaiterKind, kind.onReady b₁ b₂ s.status false s.cancelled ≠
          .shouldNotSuspend := fun kind => by
        rw [h.cancelled, hrunning]
        exact onReady_suspends nofun
      have he := Option.some.inj ha
      simp only [if_neg (hadvice .task)] at he
      subst he
      refine ⟨h.goConsumer hi rfl rfl rfl rfl rfl rfl hstatus htask nofun nofun nofun nofun
        ⟨nofun, fun _ hfinished => ?_, nofun, fun hs => h.allowed.starts (hs.imp_left nofun),
          h.allowed.hands, h.allowed.assertFailed⟩,
        .ofConsumer hc rfl rfl (.inl rfl) (by simp [rank])⟩
      by_contra hb
      have hundone := hdone.mp hfinished
      rw [hg hc (by simpa using hb)] at hundone
      cases hundone
  | readyDone =>
      have hdone := h.finished_iff (by rw [hc]; nofun) (by rw [hc]; rfl)
      rw [hc] at ha hstatus htask
      have he := Option.some.inj ha
      by_cases hd : s.taskStatus.isDone = true
      · rw [if_pos hd] at he
        subst he
        have hfinished : s.task = .finished := hdone.mpr hd
        refine ⟨h.goConsumer hi rfl rfl rfl rfl rfl rfl ?_ htask nofun nofun nofun nofun
          ⟨fun _ => h.allowed.ready hc hfinished, nofun, nofun,
            fun hs => h.allowed.starts (hs.imp_left nofun), h.allowed.hands,
            h.allowed.assertFailed⟩,
          .ofConsumer hc rfl rfl (.inr ⟨rfl, hfinished⟩) (by simp [rank])⟩
        simp_all [consumerStatuses]
      · rw [if_neg hd] at he
        subst he
        exact ⟨h.goConsumer hi rfl rfl rfl rfl rfl rfl hstatus htask nofun nofun nofun nofun
          ⟨nofun, nofun, fun _ hfinished => hd (hdone.mp hfinished),
            fun hs => h.allowed.starts (hs.imp_left nofun), h.allowed.hands,
            h.allowed.assertFailed⟩,
          .ofConsumer hc rfl rfl (.inl rfl) (by simp [rank])⟩
  | suspendRead =>
      rw [hc] at ha hstatus htask
      cases ha
      refine ⟨h.goConsumer hi rfl rfl rfl rfl rfl rfl hstatus htask nofun nofun nofun ?_
        (h.allowed.goConsumer hc nofun nofun (fun _ => rfl) nofun),
        .ofConsumer hc rfl rfl (.inl rfl) (by simp [rank])⟩
      simp [h.cancelled]
  | suspend isCancelled =>
      rw [hc] at ha hstatus htask
      have hrunning : s.status = running := by simpa [consumerStatuses] using hstatus
      have hcancelled : isCancelled = false := by
        by_contra hne
        exact h.suspend (by rw [hc]; simpa using hne)
      have hadvice : ∀ kind : AwaiterKind, kind.onSuspend b₁ b₂ running false false ≠
          .shouldNotSuspend := fun kind => onSuspend_suspends nofun
      have he := Option.some.inj ha
      rw [TaskAwait.State.setStatus_of hrunning rfl, hcancelled] at he
      simp only [if_neg (hadvice .task)] at he
      subst he
      exact ⟨h.goConsumer hi rfl rfl rfl rfl rfl rfl (by simp [consumerStatuses]) htask nofun nofun
        nofun nofun
        ⟨nofun, nofun, fun _ => h.allowed.undone (by rw [hc]; rfl),
          fun _ => chainAllows_onSuspend nofun, h.allowed.hands, h.allowed.assertFailed⟩,
        .ofConsumer hc rfl rfl (.inl rfl) (by simp [rank])⟩
  | taskStatus =>
      have hcases := h.taskStatus_cases (by rw [hc]; nofun) (by rw [hc]; rfl)
      rw [hc] at ha hstatus htask
      have he := Option.some.inj ha
      by_cases hs : s.taskStatus = notStarted ∨ s.taskStatus = yieldedSuspended
      · rw [if_pos hs] at he
        subst he
        refine ⟨h.goConsumer hi rfl rfl rfl rfl rfl rfl hstatus htask ?_ nofun nofun nofun
          (h.allowed.goConsumer hc nofun nofun nofun fun _ => rfl),
          .ofConsumer hc rfl rfl (.inl rfl) (by simp [rank])⟩
        rintro e ⟨⟩
        rfl
      · have hundone := h.allowed.undone (by rw [hc]; rfl)
        rcases hcases with ⟨_, hn⟩ | ⟨_, hn⟩ | ⟨hn, _⟩
        · exact absurd (.inl hn) hs
        · exact absurd (.inr hn) hs
        · exact absurd hn hundone
  | taskDone => exact absurd hc h.done
  | markTask expected =>
      have hparked := h.inv.parked (by rw [hc]; rfl)
      have hmark := h.mark expected hc
      rw [hc] at ha hstatus
      have he := Option.some.inj ha
      rw [if_pos hmark] at he
      subst he
      refine ⟨h.goConsumer hi rfl rfl rfl rfl rfl rfl hstatus ?_ nofun nofun nofun nofun
        (h.allowed.goConsumer hc nofun nofun nofun fun _ => rfl),
        .ofConsumer hc rfl rfl (.inl rfl) (by simp [rank])⟩
      exact suspended_mem_taskStatuses hparked
  | storeContinuation =>
      rw [hc] at ha hstatus htask
      cases ha
      exact ⟨h.goConsumer hi rfl rfl rfl rfl rfl rfl hstatus htask nofun nofun nofun nofun
        (h.allowed.goConsumer hc nofun nofun nofun fun _ => rfl),
        .ofConsumer hc rfl rfl (.inl rfl) (by simp [rank])⟩
  | setMaybeBlocked =>
      have hparked := h.inv.parked (by rw [hc]; rfl)
      rw [hc] at ha hstatus htask
      cases ha
      refine ⟨h.goConsumer hi rfl rfl rfl rfl rfl rfl hstatus htask nofun nofun (fun _ => rfl)
        nofun
        ⟨nofun, nofun, nofun, fun _ => h.allowed.starts (.inl (by rw [hc]; rfl)),
          h.allowed.hands, h.allowed.assertFailed⟩,
        .ofConsumer hc rfl rfl (.inl (hasWritten_of_parked hparked)) ?_⟩
      have := taskRank_le s.task s.taskStatus
      change 6 + taskRank s.task s.taskStatus < 30
      omega
  | clearContinuation | removeAwaiter =>
      rw [hc] at ha hstatus htask
      cases ha
      exact ⟨h.goConsumer hi rfl rfl rfl rfl rfl rfl hstatus htask nofun nofun nofun nofun
        (h.allowed.goConsumer hc nofun (fun _ => rfl) nofun nofun),
        .ofConsumer hc rfl rfl (.inl rfl) (by simp [rank])⟩
  | setRunning =>
      rw [hc] at ha hstatus htask
      have hawake : s.status = running ∨ s.status = suspended := by
        simpa [consumerStatuses] using hstatus
      have hset : CoroutineStatus.setStatus false s.status running = some running ∧
          s.status ≠ pauseOnRunning := by
        rcases hawake with hs | hs <;> rw [hs] <;> exact ⟨rfl, nofun⟩
      have hrecords : (s.assertFailed || !s.allowed) = false := by
        rw [h.allowed.goesOn (by rw [hc]; rfl), h.allowed.assertFailed]
        rfl
      have he := Option.some.inj ha
      rw [TaskAwait.State.setStatus_of rfl hset.1] at he
      simp only [if_neg hset.2] at he
      subst he
      exact ⟨h.goConsumer hi rfl rfl rfl rfl rfl rfl (List.mem_singleton_self _) htask nofun nofun
        nofun nofun
        ⟨nofun, nofun, nofun, fun hs => h.allowed.starts (hs.imp_left nofun), h.allowed.hands,
          hrecords⟩,
        .ofConsumer hc rfl rfl (.inl rfl) (show 1 < 3 by omega)⟩

theorem Steady.goTask (h : Steady s) (hi : TaskAwait.Inv s') (hc : s.consumer = .suspended)
    (hcancelled : s'.cancelled = s.cancelled) (htaskCancelled : s'.taskCancelled = s.taskCancelled)
    (hcanceller : s'.canceller = s.canceller) (haborted : s'.aborted = s.aborted)
    (hstatus : s'.status = s.status) (hconsumer : s'.consumer = s.consumer)
    (htaskStatus : s'.taskStatus ∈ taskStatuses true s'.completionPending s'.task)
    (hsettled : s'.task.isSettled = false)
    (hhands : Generator.handsOver s'.task = true → s'.task.copies = true ∨ s'.task.carries = true)
    (hyield : ∀ copy, s'.task ≠ .suspendYield copy true)
    (hcompletion : s'.completionPending = true → mayComplete s'.task = true)
    (hallowed : Allowed s') : Steady s' where
  inv := hi
  cancelled := hcancelled.trans h.cancelled
  taskCancelled := htaskCancelled.trans h.taskCancelled
  canceller := hcanceller.trans h.canceller
  aborted := haborted.trans h.aborted
  status := by
    rw [hstatus, hconsumer]
    exact h.status
  taskStatus := by rwa [hconsumer, hc]
  mark := by
    rw [hconsumer, hc]
    nofun
  done := by
    rw [hconsumer, hc]
    nofun
  launching _ hs := by
    rw [hsettled] at hs
    cases hs
  handsOver := hhands
  suspend := by
    rw [hconsumer, hc]
    nofun
  suspendYield := hyield
  completion := hcompletion
  allowed := hallowed

/-- The task has come to rest and hands over to the consumer. -/
theorem Steady.resume (h : Steady s) (hi : TaskAwait.Inv s') {p : TaskPc} {allowed : Bool}
    (hc : s.consumer = .suspended) (he : s' = { s.resumeConsumer allowed with task := p })
    (hrun : s.task.isSettled = false) (hallowed : allowed = true)
    (hsettled : p.isSettled = true)
    (htaskStatus : s.taskStatus ∈ taskStatuses false s.completionPending p)
    (hcompletion : s.completionPending = true → mayComplete p = true) : Steady s' := by
  have hstatus := h.status
  rw [hc] at hstatus
  have hconsumer : (s.resumeConsumer allowed).consumer = .clearContinuation := if_pos hc
  subst he
  refine ⟨hi, h.cancelled, h.taskCancelled, h.canceller, h.aborted, ?_, ?_, ?_, ?_, ?_, ?_, ?_, ?_,
    hcompletion, ⟨fun _ => hallowed, ?_, ?_, ?_, ?_, h.allowed.assertFailed⟩⟩
  · have hs : s.status = .suspended := by simpa [consumerStatuses] using hstatus
    rw [hconsumer]
    change s.status ∈ _
    rw [hs]
    decide
  · simp only [hconsumer]
    exact htaskStatus
  · simp only [hconsumer]
    nofun
  · simp only [hconsumer]
    nofun
  · simp only [hconsumer]
    nofun
  · intro hh
    cases p with
    | notStarted | yielded | finished => cases hh
    | _ => cases hsettled
  · simp only [hconsumer]
    nofun
  · rintro copy rfl
    cases hsettled
  · simp only [hconsumer]
    nofun
  · simp only [hconsumer]
    nofun
  · have hlaunching : (s.resumeConsumer allowed).launching = false := h.inv.launching_eq hrun
    simp only [hconsumer, hlaunching]
    rintro (hs | hs | rfl)
    · cases hs
    · cases hs
    · cases hsettled
  · cases p with
    | resumeFromYield | resumeFromFinal => cases hsettled
    | _ => rfl

/-- While the task runs, `m_continuation` is the consumer until the task has taken it. -/
theorem Steady.continuation (h : Steady s) (hs : s.task.isSettled = false)
    (hcarries : s.task.carries = false) : s.continuation = true := by
  have htoken := h.inv.token (by rw [h.consumer_suspended (.inl hs)]; rfl)
  rw [hcarries, h.canceller] at htoken
  by_contra hne
  simp only [Bool.not_eq_true] at hne
  rw [hne] at htoken
  cases htoken

/-- While the task runs, its status follows from where it stands. -/
theorem Steady.taskStatus_running {p : TaskPc} (h : Steady s) (ht : s.task = p)
    (hp : p.isSettled = false) : s.taskStatus ∈ taskStatuses true s.completionPending p := by
  have hstatus := h.taskStatus
  rw [h.consumer_suspended (.inl (by rwa [ht])), ht] at hstatus
  exact hstatus

theorem Steady.advanceTask {p p' : TaskPc} {status : CoroutineStatus}
    {pending continuation allowed failed : Bool} (h : Steady s) (hi : TaskAwait.Inv s')
    (ht : s.task = p) (hp : p.isSettled = false)
    (he : s' = { s with
      task := p'
      taskStatus := status
      completionPending := pending
      continuation := continuation
      taskAllowed := allowed
      assertFailed := failed })
    (hp' : p'.isSettled = false) (htask : p' ≠ .setRunning) (hallows : handsAllowed p' = true)
    (hfailed : failed = s.assertFailed) (hstatus : status ∈ taskStatuses true pending p')
    (hhands : Generator.handsOver p' = true → p'.copies = true ∨ p'.carries = true)
    (hyield : ∀ copy, p' ≠ .suspendYield copy true)
    (hcompletion : pending = true → mayComplete p' = true) (hover : isOver p' = isOver p)
    (hwritten : hasWritten p' = hasWritten p)
    (hnearer : taskRank p' status < taskRank p s.taskStatus) : Steady s' ∧ Advances s s' := by
  subst he
  have hc := h.consumer_suspended (.inl (by rwa [ht]))
  constructor
  · exact h.goTask hi hc rfl rfl rfl rfl rfl rfl hstatus hp' hhands hyield hcompletion
      (h.allowed.goTask hc (h.inv.launching_eq (by rwa [ht])) htask hallows hfailed)
  · exact .ofTask hc rfl ht rfl hover hwritten hnearer

theorem Steady.taskStep {b₁ b₂ b₃ : Bool} (h : Steady s) (hi : TaskAwait.Inv s')
    (ha : taskStep s b₁ b₂ b₃ s.task = some s') : Steady s' ∧ Advances s s' := by
  have hhands := h.handsOver
  have hcompletion := h.completion
  cases ht : s.task with
  | notStarted | body | yielded | finished =>
      rw [ht] at ha
      cases ha
  | setRunning =>
      have hs : s.taskStatus = .suspended := by
        simpa [taskStatuses] using h.taskStatus_running ht rfl
      rw [ht] at ha hcompletion
      have he := Option.some.inj ha
      rw [State.setTaskStatus_of hs rfl] at he
      have hrecords : (s.assertFailed || !s.taskAllowed) = s.assertFailed := by
        rw [h.allowed.starts (.inr (.inr ht))]
        exact Bool.or_false _
      exact h.advanceTask hi ht rfl he.symm rfl nofun rfl hrecords (by simp [taskStatuses]) nofun
        nofun hcompletion rfl rfl (by simp [taskRank])
  | setYielded | setReturned =>
      have hs : s.taskStatus = .running := by
        simpa [taskStatuses] using h.taskStatus_running ht rfl
      rw [ht] at ha hcompletion
      have he := Option.some.inj ha
      rw [State.setTaskStatus_of hs rfl] at he
      exact h.advanceTask hi ht rfl he.symm rfl nofun rfl rfl (by simp [taskStatuses]) nofun nofun
        hcompletion rfl rfl (by simp [taskRank])
  | readContinuation =>
      have htask := h.taskStatus_running ht rfl
      have hcontinuation := h.continuation (by rw [ht]; rfl) (by rw [ht]; rfl)
      rw [ht] at ha hcompletion
      cases ha
      exact h.advanceTask hi ht rfl rfl rfl nofun rfl rfl htask (fun _ => .inl hcontinuation) nofun
        hcompletion rfl rfl (by simp [taskRank])
  | readyYield copy =>
      have htask := h.taskStatus_running ht rfl
      have hs : s.taskStatus = .yielded := by simpa [taskStatuses] using htask
      have hadvice : AwaiterKind.yield.onReady b₁ b₂ s.taskStatus false s.taskCancelled ≠
          .shouldNotSuspend := by
        rw [h.taskCancelled, hs]
        exact onReady_suspends nofun
      rw [ht] at ha hcompletion hhands
      have he := Option.some.inj ha
      simp only [if_neg hadvice] at he
      exact h.advanceTask hi ht rfl he.symm rfl nofun rfl rfl htask hhands nofun hcompletion
        rfl rfl (by simp [taskRank])
  | suspendRead copy =>
      have htask := h.taskStatus_running ht rfl
      rw [ht] at ha hcompletion hhands
      cases ha
      refine h.advanceTask hi ht rfl rfl rfl nofun rfl rfl htask hhands ?_ hcompletion
        rfl rfl (by simp [taskRank])
      simp [h.taskCancelled]
  | suspendYield copy isCancelled =>
      have hs : s.taskStatus = .yielded := by
        simpa [taskStatuses] using h.taskStatus_running ht rfl
      have hcancelled : isCancelled = false := by
        by_contra hne
        exact h.suspendYield copy (by rw [ht]; simpa using hne)
      have hadvice : ∀ kind : AwaiterKind, kind.onSuspend b₁ b₂ .yielded false false ≠
          .shouldNotSuspend := fun kind => onSuspend_suspends nofun
      rw [ht] at ha hcompletion hhands
      have hcopy : copy = true := (hhands rfl).elim id nofun
      have he := Option.some.inj ha
      rw [State.setTaskStatus_of hs rfl, hcancelled, hcopy] at he
      simp only [if_neg (hadvice .yield), if_true] at he
      exact h.advanceTask hi ht rfl he.symm rfl nofun (chainAllows_onSuspend nofun) rfl
        (by simp [taskStatuses]) (fun _ => .inl rfl) nofun hcompletion rfl rfl (by simp [taskRank])
  | resumeFromYield allowed =>
      have htask := h.taskStatus_running ht rfl
      have hc := h.consumer_suspended (.inl (by rw [ht]; rfl))
      have hallowed := h.allowed.hands
      rw [ht] at ha hcompletion hallowed
      cases ha
      exact ⟨h.resume hi hc rfl (by rw [ht]; rfl) hallowed rfl (by simpa [taskStatuses] using htask)
          hcompletion,
        .ofResume hc (if_pos hc) ht rfl nofun rfl rfl⟩
  | exchangeContinuation =>
      have htask := h.taskStatus_running ht rfl
      have hcontinuation := h.continuation (by rw [ht]; rfl) (by rw [ht]; rfl)
      rw [ht] at ha hcompletion
      cases ha
      exact h.advanceTask hi ht rfl rfl rfl nofun rfl rfl htask (fun _ => .inr hcontinuation) nofun
        hcompletion rfl rfl (by simp [taskRank])
  | complete copy =>
      have hs : s.taskStatus = .returned := by
        simpa [taskStatuses] using h.taskStatus_running ht rfl
      rw [ht] at ha hcompletion hhands
      have hpending : s.completionPending = false := by
        by_contra hp
        cases hcompletion (by simpa using hp)
      have he := Option.some.inj ha
      cases b₃ with
      | true =>
          rw [if_pos rfl, State.setTaskStatus_of hs rfl] at he
          exact h.advanceTask hi ht rfl he.symm rfl nofun rfl rfl
            (by simp [taskStatuses, hpending]) hhands nofun (fun _ => rfl) rfl rfl
            (by simp [taskRank])
      | false =>
          simp only [Bool.false_eq_true, if_false] at he
          exact h.advanceTask hi ht rfl he.symm rfl nofun rfl rfl (by simp [taskStatuses, hs])
            hhands nofun (fun _ => rfl) rfl rfl (by simp [taskRank])
  | readyFinal copy =>
      have htask := h.taskStatus_running ht rfl
      have hadvice : AwaiterKind.final.onReady b₁ b₂ s.taskStatus false s.taskCancelled ≠
          .shouldNotSuspend := by
        rw [Ne, AwaiterKind.onReady_final]
        intro hs
        cases hp : s.completionPending <;> simp_all [taskStatuses]
      rw [ht] at ha hcompletion hhands
      have he := Option.some.inj ha
      simp only [if_neg hadvice] at he
      exact h.advanceTask hi ht rfl he.symm rfl nofun rfl rfl htask hhands nofun hcompletion
        rfl rfl (by simp [taskRank])
  | suspendFinal copy =>
      have htask := h.taskStatus_running ht rfl
      rw [ht] at ha hcompletion hhands
      have hcopy : copy = true := (hhands rfl).elim nofun id
      have he := Option.some.inj ha
      cases hp : s.completionPending with
      | true =>
          have hs : s.taskStatus = .returned := by simpa [taskStatuses, hp] using htask
          rw [State.setTaskStatus_of hs rfl, hcopy] at he
          simp only [if_true] at he
          exact h.advanceTask hi ht rfl he.symm rfl nofun (chainAllows_onSuspend nofun) rfl
            (by simp [taskStatuses, hp]) (fun _ => .inr rfl) nofun (fun _ => rfl) rfl rfl
            (by simp [taskRank])
      | false =>
          have hs : s.taskStatus = .returnedCompleted := by simpa [taskStatuses, hp] using htask
          rw [State.setTaskStatus_of hs rfl, hcopy] at he
          simp only [if_true] at he
          exact h.advanceTask hi ht rfl he.symm rfl nofun (chainAllows_onSuspend nofun) rfl
            (by simp [taskStatuses, hp]) (fun _ => .inr rfl) nofun (fun _ => rfl) rfl rfl
            (by simp [taskRank])
  | resumeFromFinal allowed =>
      have htask := h.taskStatus_running ht rfl
      have hc := h.consumer_suspended (.inl (by rw [ht]; rfl))
      have hallowed := h.allowed.hands
      rw [ht] at ha hcompletion hallowed
      cases ha
      exact ⟨h.resume hi hc rfl (by rw [ht]; rfl) hallowed rfl htask
          hcompletion,
        .ofResume hc (if_pos hc) ht rfl nofun rfl rfl⟩

theorem Steady.complete (h : Steady s) (hi : TaskAwait.Inv s')
    (hpending : s.completionPending = true)
    (he : s' = s.setTaskStatus false completed fun _ s => { s with completionPending := false }) :
    Steady s' := by
  have htask := h.taskStatus
  have hmay := h.completion hpending
  have hset : ∃ new, CoroutineStatus.setStatus false s.taskStatus completed = some new ∧
      new ∈ taskStatuses (hasMarked s.consumer) false s.task := by
    cases ht : s.task with
    | readyFinal | suspendFinal =>
        rw [ht, hpending] at htask
        have hs : s.taskStatus = .returned := by simpa [taskStatuses] using htask
        exact ⟨returnedCompleted, by rw [hs]; rfl, by simp [taskStatuses]⟩
    | resumeFromFinal | finished =>
        rw [ht, hpending] at htask
        have hs : s.taskStatus = .finalSuspended := by simpa [taskStatuses] using htask
        exact ⟨completedFinalSuspended, by rw [hs]; rfl, by simp [taskStatuses]⟩
    | _ =>
        rw [ht] at hmay
        cases hmay
  obtain ⟨new, hnew, hmem⟩ := hset
  rw [State.setTaskStatus_of rfl hnew] at he
  subst he
  have hmark : ∀ expected, s.consumer = .markTask expected → new = expected := by
    intro expected hc
    have hparked := h.inv.parked (by rw [hc]; rfl)
    cases ht : s.task with
    | notStarted | yielded =>
        rw [ht] at hmay
        cases hmay
    | _ =>
        rw [ht] at hparked
        cases hparked
  exact ⟨hi, h.cancelled, h.taskCancelled, h.canceller, h.aborted, h.status, hmem, hmark, h.done,
    h.launching, h.handsOver, h.suspend, h.suspendYield, nofun,
    ⟨h.allowed.goesOn, h.allowed.ready, h.allowed.undone, h.allowed.starts, h.allowed.hands,
      h.allowed.assertFailed⟩⟩

/-- Neither coroutine is cancelled. -/
def isQuiet : TaskAwait.Action → Bool
  | .cancelTask | .cancel | .canceller => false
  | .taskAwaits status => status = running ∨ status = suspended
  | _ => true

theorem Steady.step {a : TaskAwait.Action} (h : Steady s) (hq : isQuiet a = true)
    (ha : TaskAwait.step s a = some s')
    (hg : ∀ same, a = .consumer same false → s.consumer = .ready → s.taskStatus.isDone = false) :
    Steady s' := by
  have hi := h.inv.step (cancelsUncopied_of_idle h.canceller) ha
  have hcompletion := h.completion
  have htask := h.taskStatus
  have hstatus := h.status
  obtain ⟨-, ha⟩ := Option.ite_none_left_eq_some.mp ha
  cases a with
  | await =>
      obtain ⟨hc, ha⟩ := Option.ite_none_right_eq_some.mp ha
      have he := Option.some.inj ha
      have hfree : ¬ s.cancelled = true := by rw [h.cancelled]; nofun
      rw [if_neg hfree] at he
      subst he
      rw [hc] at htask hstatus
      exact h.goConsumer hi rfl rfl rfl rfl rfl rfl hstatus htask nofun nofun nofun nofun
        (h.allowed.goConsumer hc nofun nofun nofun nofun)
  | consumer sameThreadPoolKind canDoChainedExecution =>
      exact (h.consumerStep hi ha fun hc hb => hg _ (by rw [hb]) hc).1
  | launch =>
      obtain ⟨hl, ha⟩ := Option.ite_none_right_eq_some.mp ha
      cases ha
      have hc := h.consumer_suspended (.inr hl)
      have hparked := h.inv.launching hl
      rw [hc] at htask
      cases ht : s.task with
      | notStarted | yielded =>
          rw [ht] at htask hcompletion
          simp only [ht, true_or, or_true, if_true] at hi ⊢
          exact h.goTask hi hc rfl rfl rfl rfl rfl rfl htask rfl nofun nofun
            (fun hp => absurd (hcompletion hp) nofun)
            ⟨h.allowed.goesOn, fun hr => absurd (hc.symm.trans hr) nofun,
              fun hu => absurd (hc ▸ hu) nofun, fun _ => h.allowed.starts (.inr (.inl hl)), rfl,
              h.allowed.assertFailed⟩
      | _ =>
          rw [ht] at hparked
          cases hparked
  | taskAwaits status =>
      obtain ⟨⟨ht, _⟩, ha⟩ := Option.ite_none_right_eq_some.mp ha
      have hc := h.consumer_suspended (.inl (by rw [ht]; rfl))
      rw [ht] at htask hcompletion
      have hset : ∃ new, CoroutineStatus.setStatus false s.taskStatus status = some new ∧
          (new = .running ∨ new = .suspended) := by
        have hs : s.taskStatus = .running ∨ s.taskStatus = .suspended := by
          simpa [taskStatuses] using htask
        have hq : status = .running ∨ status = .suspended := of_decide_eq_true hq
        rcases hs with hs | hs <;> rcases hq with hq | hq <;> rw [hs, hq] <;>
          first | exact ⟨_, rfl, .inl rfl⟩ | exact ⟨_, rfl, .inr rfl⟩
      obtain ⟨new, hnew, hmem⟩ := hset
      have he := Option.some.inj ha
      rw [State.setTaskStatus_of rfl hnew] at he
      subst he
      have hl := h.inv.launching_eq (by rw [ht]; rfl)
      refine h.goTask hi hc rfl rfl rfl rfl rfl rfl ?_ ?_ ?_ ?_ ?_
        (h.allowed.goTask hc hl (by rw [ht]; nofun) (by rw [ht]; rfl) rfl)
      · rw [ht]
        simpa [taskStatuses] using hmem
      · rw [ht]
        rfl
      · rw [ht]
        nofun
      · rw [ht]
        nofun
      · rw [ht]
        exact hcompletion
  | yield | finish =>
      obtain ⟨⟨ht, hs⟩, ha⟩ := Option.ite_none_right_eq_some.mp ha
      have hc := h.consumer_suspended (.inl (by rw [ht]; rfl))
      have hl := h.inv.launching_eq (by rw [ht]; rfl)
      rw [ht] at hcompletion
      cases ha
      exact h.goTask hi hc rfl rfl rfl rfl rfl rfl (by simp [taskStatuses, hs]) rfl nofun nofun
        (fun hp => absurd (hcompletion hp) nofun) (h.allowed.goTask hc hl nofun rfl rfl)
  | task sameThreadPoolKind canDoChainedExecution lastUnit => exact (h.taskStep hi ha).1
  | complete =>
      obtain ⟨hp, ha⟩ := Option.ite_none_right_eq_some.mp ha
      exact h.complete hi hp (Option.some.inj ha).symm
  | cancelTask | cancel | canceller => cases hq

theorem steady_initial : Steady TaskAwait.initial where
  inv := inv_initial
  cancelled := rfl
  taskCancelled := rfl
  canceller := rfl
  aborted := rfl
  status := by simp [TaskAwait.initial, consumerStatuses]
  taskStatus := by simp [TaskAwait.initial, taskStatuses, hasMarked]
  mark := nofun
  done := nofun
  launching := nofun
  handsOver := nofun
  suspend := nofun
  suspendYield := nofun
  completion := nofun
  allowed := ⟨nofun, nofun, nofun, fun _ => rfl, rfl, rfl⟩

end Steps

end LevelzAsync.Generator
