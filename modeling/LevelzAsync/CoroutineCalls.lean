import LevelzAsync.CoroutineCancel
import LevelzAsync.EventWait
import LevelzAsync.Lifecycle
import LevelzAsync.PoolAffinity
import LevelzAsync.TaskAwait

/-!
# One `Coroutine::cancel` and one `Awaiter::onResume`

Four machines have a caller of `Coroutine::cancel`, and with `PoolAffinity` five have the
part of `Awaiter::onResume` that changes the status; each works on the state of its own
machine, with the awaiters that it is about. Here the two functions stand once, on the words
of the coroutine, and every step of the machines is one of theirs, or a step inside
`Awaiter::cancel`, or the abort of `setStatus`.
-/

namespace LevelzAsync.CoroutineCalls

open CoroutineStatus

/-- `m_status`, `m_cancelled` and the number of awaiters in `m_awaiters`. -/
structure Words where
  status : CoroutineStatus
  cancelled : Bool
  awaiters : ℕ

inductive CancelPc
  | check
  | mark
  | status
  | isEmpty
  | pause
  | dequeue (foundBlockingAwaiter : Bool)
  | awaiter (foundBlockingAwaiter : Bool)
  | checkPaused (foundBlockingAwaiter : Bool)
  | resume
  | returned

inductive ResumePc
  | setRunning
  | spinPaused
  | goesOn

/-- `Coroutine::cancel`; `maybeBlocked` and `cancelled` are the answers of the awaiter. -/
def cancelStep (w : Words) (maybeBlocked cancelled : Bool) : CancelPc → Option (Words × CancelPc)
  | .check => some (w, if w.cancelled = true then .returned else .mark)
  | .mark => some ({ w with cancelled := true }, .status)
  | .status => some (w, if w.status = suspended then .isEmpty else .returned)
  | .isEmpty => some (w, if w.awaiters = 0 then .returned else .pause)
  | .pause =>
      (setStatus false w.status pauseOnRunning).map fun status =>
        ({ w with status := status },
          if w.status = suspended then .dequeue false else .returned)
  | .dequeue found =>
      some (if w.awaiters = 0 then (w, .checkPaused found)
        else ({ w with awaiters := w.awaiters - 1 }, .awaiter found))
  | .awaiter found => some (w, .dequeue (found || maybeBlocked && !cancelled))
  | .checkPaused found =>
      some (w, if found = true ∧ w.status ≠ paused then .dequeue false else .resume)
  | .resume =>
      (setStatus false w.status resumed).map fun status =>
        ({ w with status := status }, .returned)
  | .returned => none

/-- `Awaiter::onResume` from the test for a shutdown to the end of its loop. -/
def resumeStep (status : CoroutineStatus) (isImmediateShutdownRequested : Bool) :
    ResumePc → Option (CoroutineStatus × ResumePc)
  | .setRunning =>
      if isImmediateShutdownRequested = true then some (status, .goesOn)
      else (setStatus false status running).map fun newStatus =>
        (newStatus, if status = pauseOnRunning then .spinPaused else .goesOn)
  | .spinPaused => some (status, if status = paused then .spinPaused else .goesOn)
  | .goesOn => none

/-- A step of a machine at `p` is one of `Coroutine::cancel`, or one of several that make up
`Awaiter::cancel`. -/
def CancelFollows (w w' : Words) (p p' : CancelPc) : Prop :=
  (∃ found, p = .awaiter found ∧ p' = .awaiter found ∧ w' = w) ∨
    ∃ maybeBlocked cancelled, cancelStep w maybeBlocked cancelled p = some (w', p')

def ResumeFollows (status status' : CoroutineStatus) (p p' : ResumePc) : Prop :=
  ∃ isImmediateShutdownRequested,
    resumeStep status isImmediateShutdownRequested p = some (status', p')

/-! ## One rule for each point of the two functions -/

section CancelFollows

variable {w : Words} {found : Bool} {n : ℕ} {newStatus : CoroutineStatus}

theorem CancelFollows.inside : CancelFollows w w (.awaiter found) (.awaiter found) :=
  .inl ⟨found, rfl, rfl, rfl⟩

theorem CancelFollows.check :
    CancelFollows w w .check (if w.cancelled = true then .returned else .mark) :=
  .inr ⟨false, false, rfl⟩

theorem CancelFollows.mark : CancelFollows w { w with cancelled := true } .mark .status :=
  .inr ⟨false, false, rfl⟩

theorem CancelFollows.status :
    CancelFollows w w .status (if w.status = suspended then .isEmpty else .returned) :=
  .inr ⟨false, false, rfl⟩

theorem CancelFollows.isEmpty (h : w.awaiters = 0) : CancelFollows w w .isEmpty .returned :=
  .inr ⟨false, false, by rw [cancelStep, if_pos h]⟩

theorem CancelFollows.isEmpty_succ (h : w.awaiters = n + 1) : CancelFollows w w .isEmpty .pause :=
  .inr ⟨false, false, by rw [cancelStep, if_neg (by omega)]⟩

theorem CancelFollows.pause (h : setStatus false w.status pauseOnRunning = some newStatus) :
    CancelFollows w { w with status := newStatus } .pause
      (if w.status = suspended then .dequeue false else .returned) :=
  .inr ⟨false, false, by rw [cancelStep, h, Option.map_some]⟩

theorem CancelFollows.dequeue (h : w.awaiters = 0) :
    CancelFollows w w (.dequeue found) (.checkPaused found) :=
  .inr ⟨false, false, by rw [cancelStep, if_pos h]⟩

theorem CancelFollows.dequeue_succ (h : w.awaiters = n + 1) :
    CancelFollows w { w with awaiters := n } (.dequeue found) (.awaiter found) :=
  .inr ⟨false, false, by rw [cancelStep, if_neg (by omega), h, Nat.add_sub_cancel]⟩

theorem CancelFollows.awaiter (maybeBlocked cancelled : Bool) :
    CancelFollows w w (.awaiter found) (.dequeue (found || maybeBlocked && !cancelled)) :=
  .inr ⟨maybeBlocked, cancelled, rfl⟩

theorem CancelFollows.cancelled : CancelFollows w w (.awaiter found) (.dequeue found) :=
  .inr ⟨true, true, by rw [cancelStep, Bool.not_true, Bool.and_false, Bool.or_false]⟩

theorem CancelFollows.notBlocked : CancelFollows w w (.awaiter found) (.dequeue found) :=
  .inr ⟨false, false, by rw [cancelStep, Bool.false_and, Bool.or_false]⟩

theorem CancelFollows.notCancelled : CancelFollows w w (.awaiter found) (.dequeue true) :=
  .inr ⟨true, false, by rw [cancelStep, Bool.not_false, Bool.and_true, Bool.or_true]⟩

theorem CancelFollows.checkPaused : CancelFollows w w (.checkPaused found)
    (if found = true ∧ w.status ≠ paused then .dequeue false else .resume) :=
  .inr ⟨false, false, rfl⟩

theorem CancelFollows.resume (h : setStatus false w.status resumed = some newStatus) :
    CancelFollows w { w with status := newStatus } .resume .returned :=
  .inr ⟨false, false, by rw [cancelStep, h, Option.map_some]⟩

end CancelFollows

section ResumeFollows

variable {status newStatus : CoroutineStatus}

theorem ResumeFollows.shutdown : ResumeFollows status status .setRunning .goesOn :=
  ⟨true, rfl⟩

theorem ResumeFollows.setRunning (h : setStatus false status running = some newStatus) :
    ResumeFollows status newStatus .setRunning
      (if status = pauseOnRunning then .spinPaused else .goesOn) :=
  ⟨false, by rw [resumeStep, if_neg Bool.false_ne_true, h, Option.map_some]⟩

theorem ResumeFollows.spinPaused (status : CoroutineStatus) :
    ResumeFollows status status .spinPaused (if status = paused then .spinPaused else .goesOn) :=
  ⟨false, rfl⟩

end ResumeFollows

end LevelzAsync.CoroutineCalls

namespace LevelzAsync.TaskAwait

open CoroutineStatus CoroutineCalls

def State.words (s : State) : Words := ⟨s.status, s.cancelled, s.awaiterListed.toNat⟩

def CancelPc.inCancel : CancelPc → CoroutineCalls.CancelPc
  | .idle | .returned => .returned
  | .mark => .mark
  | .status => .status
  | .empty => .isEmpty
  | .pause => .pause
  | .takeAwaiter found => .dequeue found
  | .tryAwaiter found | .exchange found | .schedule found => .awaiter found
  | .checkPaused found => .checkPaused found
  | .resume => .resume

def ConsumerPc.inResume : ConsumerPc → Option ResumePc
  | .setRunning => some .setRunning
  | .spinPaused => some .spinPaused
  | _ => none

variable {s s' : State}

theorem cancelStep_follows (ha : cancelStep s s.canceller = some s') :
    s'.aborted = true ∨ CancelFollows s.words s'.words s.canceller.inCancel
      s'.canceller.inCancel := by
  cases hp : s.canceller <;> simp only [hp, cancelStep, reduceCtorEq] at ha <;> cases ha
  case mark => exact .inr .mark
  case status =>
    simp only [apply_ite CancelPc.inCancel]
    exact .inr .status
  case empty =>
    split_ifs with hl
    · exact .inr (.isEmpty_succ (congrArg Bool.toNat hl))
    · exact .inr (.isEmpty (congrArg Bool.toNat (Bool.eq_false_of_not_eq_true hl)))
  case pause =>
    cases hn : setStatus false s.status pauseOnRunning with
    | none => exact .inl (by simp [State.setStatus, hn])
    | some new =>
        rw [State.setStatus_of rfl hn]
        simp only [apply_ite CancelPc.inCancel]
        exact .inr (.pause hn)
  case takeAwaiter found =>
    split_ifs with hl
    · exact .inr (.dequeue_succ (congrArg Bool.toNat hl))
    · exact .inr (.dequeue (congrArg Bool.toNat (Bool.eq_false_of_not_eq_true hl)))
  case tryAwaiter found =>
    cases s.maybeBlocked with
    | true => exact .inr .inside
    | false => exact .inr .notBlocked
  case exchange found =>
    cases s.continuation with
    | true => exact .inr .inside
    | false => exact .inr .notCancelled
  case schedule found =>
    exact .inr .cancelled
  case checkPaused found =>
    simp only [apply_ite CancelPc.inCancel]
    exact .inr .checkPaused
  case resume =>
    cases hn : setStatus false s.status resumed with
    | none => exact .inl (by simp [State.setStatus, hn])
    | some new =>
        rw [State.setStatus_of rfl hn]
        exact .inr (.resume hn)

theorem consumerStep_follows {b₁ b₂ : Bool} {p : ResumePc} (hp : s.consumer.inResume = some p)
    (ha : consumerStep s b₁ b₂ s.consumer = some s') :
    s'.aborted = true ∨
      ResumeFollows s.status s'.status p (s'.consumer.inResume.getD .goesOn) := by
  cases hc : s.consumer <;> rw [hc] at hp <;> cases hp <;>
    simp only [hc, consumerStep] at ha <;> cases ha
  case setRunning =>
    cases hn : setStatus false s.status running with
    | none => exact .inl (by simp [State.setStatus, hn])
    | some new =>
        rw [State.setStatus_of rfl hn]
        have hfollows := ResumeFollows.setRunning hn
        refine .inr ?_
        split_ifs at hfollows ⊢ <;> exact hfollows
  case spinPaused =>
    have hfollows := ResumeFollows.spinPaused s.status
    refine .inr ?_
    split_ifs at hfollows ⊢
    · rw [hc]
      exact hfollows
    · exact hfollows

end LevelzAsync.TaskAwait

namespace LevelzAsync.EventWait

open CoroutineStatus CoroutineCalls

variable {Co : Type*}

def Waiter.words (w : Waiter Co) : Words := ⟨w.status, w.cancelled, w.awaiterListed.toNat⟩

def CancelPc.inCancel : CancelPc Co → CoroutineCalls.CancelPc
  | .idle | .returned => .returned
  | .isCancelled => .check
  | .setCancelled => .mark
  | .status => .status
  | .empty => .isEmpty
  | .pause => .pause
  | .takeAwaiter found => .dequeue found
  | .tryAwaiter found | .removeCount found | .removeDequeue found _ | .removeCountDown found _ _
  | .removeEnqueue found _ _ | .removeCountUp found _ | .schedule found => .awaiter found
  | .checkPaused found => .checkPaused found
  | .resume => .resume

def ResumePc.inResume : ResumePc → Option CoroutineCalls.ResumePc
  | .setRunning => some .setRunning
  | .spinPaused => some .spinPaused
  | _ => none

variable [DecidableEq Co] {s s' : State Co} {c : Co}

@[simp] theorem State.set_co (s : State Co) (c : Co) (w : Waiter Co) : (s.set c w).co c = w :=
  Function.update_self ..

theorem cancelStep_follows (ha : cancelStep s c (s.co c) (s.co c).cancel = some s') :
    CancelFollows (s.co c).words (s'.co c).words (s.co c).cancel.inCancel
      (s'.co c).cancel.inCancel := by
  cases hp : (s.co c).cancel <;> simp only [hp, cancelStep, reduceCtorEq] at ha
  case isCancelled =>
    cases ha
    simp only [State.set_co, apply_ite CancelPc.inCancel]
    exact .check
  case setCancelled =>
    cases ha
    simp only [State.set_co]
    exact .mark
  case status =>
    cases ha
    simp only [State.set_co, apply_ite CancelPc.inCancel]
    exact .status
  case empty =>
    cases ha
    simp only [State.set_co]
    split_ifs with hl
    · exact .isEmpty_succ (congrArg Bool.toNat hl)
    · exact .isEmpty (congrArg Bool.toNat (Bool.eq_false_of_not_eq_true hl))
  case pause =>
    obtain ⟨new, hn, rfl⟩ := Option.map_eq_some_iff.mp ha
    simp only [State.set_co, apply_ite CancelPc.inCancel]
    exact .pause hn
  case takeAwaiter found =>
    cases ha
    simp only [State.set_co]
    split_ifs with hl
    · exact .dequeue_succ (congrArg Bool.toNat hl)
    · exact .dequeue (congrArg Bool.toNat (Bool.eq_false_of_not_eq_true hl))
  case tryAwaiter found =>
    cases ha
    simp only [State.set_co]
    cases (s.co c).maybeBlocked with
    | true => exact .inside
    | false => exact .notBlocked
  case removeDequeue found left =>
    cases ha
    split
    · simp only [State.set_co]
      exact .inside
    · simp only [State.set_co]
      exact .notCancelled
  case removeCountDown found left node =>
    cases ha
    by_cases hn : node = c <;> simp only [State.set_co, hn, if_true, if_false] <;> exact .inside
  case removeCount found | removeEnqueue found left node | removeCountUp found left =>
    cases ha
    simp only [State.set_co]
    exact .inside
  case schedule found =>
    cases ha
    simp only [State.set_co]
    exact .cancelled
  case checkPaused found =>
    cases ha
    simp only [State.set_co, apply_ite CancelPc.inCancel]
    exact .checkPaused
  case resume =>
    obtain ⟨new, hn, rfl⟩ := Option.map_eq_some_iff.mp ha
    simp only [State.set_co]
    exact .resume hn

theorem resumeStep_follows {p : CoroutineCalls.ResumePc}
    (hp : (s.co c).resume.inResume = some p)
    (ha : resumeStep s c (s.co c) (s.co c).resume = some s') :
    ResumeFollows (s.co c).status (s'.co c).status p
      ((s'.co c).resume.inResume.getD .goesOn) := by
  cases hr : (s.co c).resume <;> rw [hr] at hp <;> cases hp <;>
    simp only [hr, resumeStep] at ha
  case setRunning =>
    obtain ⟨new, hn, rfl⟩ := Option.map_eq_some_iff.mp ha
    have hfollows := ResumeFollows.setRunning hn
    simp only [State.set_co]
    split_ifs at hfollows ⊢ <;> exact hfollows
  case spinPaused =>
    cases ha
    have hfollows := ResumeFollows.spinPaused (s.co c).status
    simp only [State.set_co]
    split_ifs at hfollows ⊢ <;> exact hfollows

end LevelzAsync.EventWait

namespace LevelzAsync.Lifecycle

open CoroutineStatus CoroutineCalls

def State.words (s : State) : Words := ⟨s.status, s.cancelled, s.awaiterListed.toNat⟩

def HolderPc.inCancel : HolderPc → Option CancelPc
  | .cancelCheck _ => some .check
  | .cancelMark _ => some .mark
  | .cancelStatus _ => some .status
  | .cancelEmpty _ => some .isEmpty
  | .pause _ => some .pause
  | .takeAwaiter _ found => some (.dequeue found)
  | .tryAwaiter _ found => some (.awaiter found)
  | .checkPaused _ found => some (.checkPaused found)
  | .resume _ => some .resume
  | _ => none

def OwnPc.inResume : OwnPc → Option ResumePc
  | .setRunning _ => some .setRunning
  | .spinPaused => some .spinPaused
  | _ => none

@[simp] theorem Caller.inCancel_return (caller : Caller) : caller.return.inCancel = none := by
  cases caller <;> rfl

theorem HolderPc.inCancel_ite (c : Prop) [Decidable c] (p q : HolderPc) :
    (if c then p else q).inCancel.getD .returned =
      if c then p.inCancel.getD .returned else q.inCancel.getD .returned := by
  split_ifs
  · rfl
  · rfl

variable {s s' : State}

/-- `cancel` ends where its caller goes on. -/
theorem holderStep_follows {b₁ b₂ b₃ : Bool} {p : CancelPc} (hp : s.holder.inCancel = some p)
    (ha : holderStep s b₁ b₂ b₃ s.holder = some s') :
    s'.aborted = true ∨
      CancelFollows s.words s'.words p (s'.holder.inCancel.getD .returned) := by
  cases hh : s.holder <;> rw [hh] at hp <;> cases hp <;>
    simp only [hh, holderStep] at ha <;> cases ha
  case cancelCheck caller =>
    simp only [HolderPc.inCancel_ite, Caller.inCancel_return]
    exact .inr .check
  case cancelMark caller => exact .inr .mark
  case cancelStatus caller =>
    simp only [HolderPc.inCancel_ite, Caller.inCancel_return]
    exact .inr .status
  case cancelEmpty caller =>
    simp only [HolderPc.inCancel_ite, Caller.inCancel_return]
    split_ifs with hl
    · exact .inr (.isEmpty_succ (congrArg Bool.toNat hl))
    · exact .inr (.isEmpty (congrArg Bool.toNat (Bool.eq_false_of_not_eq_true hl)))
  case pause caller =>
    cases hn : setStatus false s.status pauseOnRunning with
    | none => exact .inl (by simp [State.setStatus, hn])
    | some new =>
        rw [State.setStatus_eq hn]
        simp only [HolderPc.inCancel_ite, Caller.inCancel_return]
        exact .inr (.pause hn)
  case takeAwaiter caller found =>
    split_ifs with hl
    · exact .inr (.dequeue_succ (congrArg Bool.toNat hl))
    · exact .inr (.dequeue (congrArg Bool.toNat (Bool.eq_false_of_not_eq_true hl)))
  case tryAwaiter caller found => exact .inr (.awaiter b₁ b₂)
  case checkPaused caller found =>
    simp only [HolderPc.inCancel_ite]
    exact .inr .checkPaused
  case resume caller =>
    cases hn : setStatus false s.status resumed with
    | none => exact .inl (by simp [State.setStatus, hn])
    | some new =>
        rw [State.setStatus_eq hn]
        simp only [Caller.inCancel_return]
        exact .inr (.resume hn)

theorem ownStep_follows {b₁ b₂ b₃ b₄ : Bool} {p : ResumePc} (hp : s.own.inResume = some p)
    (ha : ownStep s b₁ b₂ b₃ b₄ s.own = some s') :
    s'.aborted = true ∨ ResumeFollows s.status s'.status p (s'.own.inResume.getD .goesOn) := by
  cases ho : s.own <;> rw [ho] at hp <;> cases hp <;> simp only [ho, ownStep] at ha <;> cases ha
  case setRunning kind =>
    cases hn : setStatus false s.status running with
    | none => exact .inl (by simp [State.setStatus, hn])
    | some new =>
        rw [State.setStatus_eq hn]
        have hfollows := ResumeFollows.setRunning hn
        refine .inr ?_
        split_ifs at hfollows ⊢ <;> exact hfollows
  case spinPaused =>
    have hfollows := ResumeFollows.spinPaused s.status
    refine .inr ?_
    split_ifs at hfollows ⊢ <;> exact hfollows

end LevelzAsync.Lifecycle

namespace LevelzAsync.CoroutineCancel

open CoroutineStatus CoroutineCalls

variable {Canceller : Type*}

def State.words (s : State Canceller) : Words := ⟨s.status, s.cancelled, s.awaiters.length⟩

def CancelPc.inCancel : CancelPc → CoroutineCalls.CancelPc
  | .idle | .returned => .returned
  | .check => .check
  | .mark => .mark
  | .status => .status
  | .isEmpty => .isEmpty
  | .pause => .pause
  | .dequeue found => .dequeue found
  | .listCount _ found | .maybeBlocked _ found | .cancelAwaiter _ found | .schedule found =>
      .awaiter found
  | .checkPaused found => .checkPaused found
  | .resume => .resume

def OwnPc.inResume : OwnPc → Option ResumePc
  | .setRunning => some .setRunning
  | .spinPaused => some .spinPaused
  | _ => none

theorem ownStep_follows {s s' : State Canceller} {b₁ b₂ b₃ : Bool} {p : ResumePc}
    (hp : s.own.inResume = some p) (ha : ownStep s b₁ b₂ b₃ s.own = some s') :
    s'.aborted = true ∨ ResumeFollows s.status s'.status p (s'.own.inResume.getD .goesOn) := by
  cases ho : s.own <;> rw [ho] at hp <;> cases hp <;> simp only [ho, ownStep] at ha <;> cases ha
  case setRunning =>
    cases hn : setStatus false s.status running with
    | none => exact .inl (by simp [State.setStatus, hn])
    | some new =>
        rw [State.setStatus_eq hn]
        have hfollows := ResumeFollows.setRunning hn
        refine .inr ?_
        split_ifs at hfollows ⊢ <;> exact hfollows
  case spinPaused =>
    have hfollows := ResumeFollows.spinPaused s.status
    refine .inr ?_
    split_ifs at hfollows ⊢ <;> exact hfollows

variable [DecidableEq Canceller] {s s' : State Canceller} {i : Canceller}

@[simp] theorem State.goCanceller_canceller (s : State Canceller) (i : Canceller) (q : CancelPc) :
    (s.goCanceller i q).canceller i = q :=
  Function.update_self ..

theorem cancelStep_follows {b₁ b₂ : Bool}
    (ha : cancelStep s i b₁ b₂ (s.canceller i) = some s') :
    s'.aborted = true ∨ CancelFollows s.words s'.words (s.canceller i).inCancel
      (s'.canceller i).inCancel := by
  cases hp : s.canceller i <;> simp only [hp, cancelStep, reduceCtorEq] at ha
  case check =>
    cases ha
    simp only [State.goCanceller_canceller, apply_ite CancelPc.inCancel]
    exact .inr .check
  case mark =>
    cases ha
    simp only [State.goCanceller_canceller]
    exact .inr .mark
  case status =>
    cases ha
    simp only [State.goCanceller_canceller, apply_ite CancelPc.inCancel]
    exact .inr .status
  case isEmpty =>
    cases ha
    simp only [State.goCanceller_canceller]
    split_ifs with hl
    · exact .inr (.isEmpty (congrArg List.length hl))
    · have hlength := List.length_pos_of_ne_nil hl
      exact .inr (.isEmpty_succ (Nat.succ_pred_eq_of_pos hlength).symm)
  case pause =>
    cases ha
    cases hn : setStatus false s.status pauseOnRunning with
    | none => exact .inl (by simp [State.setStatus, hn])
    | some new =>
        have hfollows := CancelFollows.pause (w := s.words) hn
        rw [State.setStatus_eq hn]
        refine .inr ?_
        by_cases hs : s.status = suspended
        · rw [if_pos (show s.words.status = suspended from hs)] at hfollows
          simp only [if_pos hs, State.goCanceller_canceller]
          exact hfollows
        · rw [if_neg (show s.words.status ≠ suspended from hs)] at hfollows
          simp only [if_neg hs, State.goCanceller_canceller]
          exact hfollows
  case dequeue found =>
    cases ha
    cases hl : s.awaiters with
    | nil =>
        simp only [State.goCanceller_canceller]
        exact .inr (.dequeue (congrArg List.length hl))
    | cons awaiter rest =>
        simp only [State.goCanceller_canceller]
        exact .inr (.dequeue_succ (congrArg List.length hl))
  case listCount awaiter found =>
    cases ha
    simp only [State.goCanceller_canceller]
    exact .inr .inside
  case maybeBlocked awaiter found =>
    cases ha
    simp only [State.goCanceller_canceller]
    cases b₁ with
    | true => exact .inr .inside
    | false => exact .inr .notBlocked
  case cancelAwaiter awaiter found =>
    split_ifs at ha
    · cases ha
      simp only [State.goCanceller_canceller]
      exact .inr .inside
    · cases ha
      simp only [State.goCanceller_canceller, ne_eq, decide_not]
      exact .inr (.awaiter true (awaiter.kind = .barrier))
  case schedule found =>
    cases ha
    simp only [State.goCanceller_canceller]
    exact .inr .cancelled
  case checkPaused found =>
    cases ha
    simp only [State.goCanceller_canceller, apply_ite CancelPc.inCancel]
    exact .inr .checkPaused
  case resume =>
    cases ha
    cases hn : setStatus false s.status resumed with
    | none => exact .inl (by simp [State.setStatus, hn])
    | some new =>
        rw [State.setStatus_eq hn]
        simp only [State.goCanceller_canceller]
        exact .inr (.resume hn)

end LevelzAsync.CoroutineCancel

namespace LevelzAsync.PoolAffinity

open CoroutineStatus CoroutineCalls

variable {T C : Type*} [DecidableEq T] [DecidableEq C]

def Stage.inResume : Stage C → Option ResumePc
  | .resumed => some .setRunning
  | .paused => some .spinPaused
  | _ => none

/-- The call on top of the stack, in the coroutine whose record is `r`. -/
theorem run_follows {s s' : State T C} {t : T} {f : Frame C} {rest : List (Frame C)}
    {r : Coroutine C} {reads : Reads} {p : ResumePc} (hr : s.coroutine f.coroutine = some r)
    (hp : f.stage.inResume = some p) (ha : s.run t f rest r reads = some s') :
    ∃ r' stage, s'.coroutine f.coroutine = some r' ∧
      (s'.thread t).frames = { f with stage := stage } :: rest ∧
      ResumeFollows r.status r'.status p (stage.inResume.getD .goesOn) := by
  unfold State.run at ha
  cases hs : f.stage <;> rw [hs] at hp <;> cases hp <;> simp only [hs] at ha
  case resumed =>
    by_cases hshutdown : reads.isImmediateShutdownRequested = true
    · rw [if_pos hshutdown] at ha
      cases ha
      exact ⟨r, .body, hr, by simp [State.enter, State.put], .shutdown⟩
    · rw [if_neg hshutdown] at ha
      obtain ⟨new, hn, rfl⟩ := Option.map_eq_some_iff.mp ha
      have hfollows := ResumeFollows.setRunning hn
      refine ⟨{ r with status := new }, if r.status = pauseOnRunning then .paused else .body,
        by simp [State.enter, State.put, State.edit, hr], by simp [State.enter, State.put], ?_⟩
      split_ifs at hfollows ⊢ <;> exact hfollows
  case paused =>
    have hfollows := ResumeFollows.spinPaused r.status
    split_ifs at ha with hpaused
    rw [if_neg hpaused] at hfollows
    cases ha
    exact ⟨r, .body, hr, by simp [State.enter, State.put], hfollows⟩

end LevelzAsync.PoolAffinity
