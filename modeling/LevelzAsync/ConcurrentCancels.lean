import LevelzAsync.CancelHandshake
import Mathlib.Data.Fintype.Basic

/-!
# Concurrent cancellations of a suspended coroutine

`Coroutine::cancel` reads `m_cancelled` and then writes it. Two calls that both
find it false go on together, and the second request for `PauseOnRunning` then
finds the status that the first has left. As long as no call tests the flag
between the test of another call and its write, one call alone pauses the
coroutine and the others return at once.
-/

namespace LevelzAsync.CoroutineCancel

open CoroutineStatus

/-- Past the test of `m_cancelled`, up to the request for `PauseOnRunning`. -/
def CancelPc.isEarly : CancelPc → Bool
  | mark | status | isEmpty | pause => true
  | _ => false

def CancelPc.schedules : CancelPc → Bool
  | schedule _ => true
  | _ => false

def OwnPc.awaits : OwnPc → Bool
  | addAwaiter | addCount | ready | suspendRead | suspend _ | register _ => true
  | _ => false

theorem CancelPc.active_of_isEarly {q : CancelPc} (h : q.isEarly = true) : q.active = true := by
  cases q <;> first | rfl | cases h

theorem CancelPc.isPausing_of_schedules {q : CancelPc} (h : q.schedules = true) :
    q.isPausing = true := by
  cases q <;> first | rfl | cases h

/-- One call pauses the coroutine, and until then the coroutine waits. -/
structure Once {Canceller : Type*} (s : State Canceller) : Prop where
  inv : Inv s
  runs : s.aborted = false
  calm : s.own.awaits = false
  early : ∀ i, (s.canceller i).isEarly = true → s.pauses = 0
  pausing : ∀ i, (s.canceller i).isPausing = true → s.pauses ≠ 0
  paused : s.pauses ≠ 0 → s.pauses = 1 ∧ s.cancelled = true
  waits : s.pauses = 0 → s.own = .parked ∧ s.awaiters = [s.awaiter] ∧
    s.waiting = true ∧ s.queued = 0
  due : s.cancelled = true → s.pauses = 0 →
    ∃ i, (s.canceller i).isEarly = true ∧ (s.canceller i).marked = true
  token : s.schedules + s.waiting.toNat ≤ 1
  taken : ∀ i, (s.canceller i).schedules = true → s.schedules + s.waiting.toNat = 0

variable {Canceller : Type*} {s s' : State Canceller}

theorem ownStep_calm {b₁ b₂ b₃ : Bool} (hcalm : s.own.awaits = false)
    (ha : ownStep s b₁ b₂ b₃ s.own = some s') :
    s'.own.awaits = false ∧ s'.canceller = s.canceller ∧ s'.cancelled = s.cancelled ∧
      s'.pauses = s.pauses ∧ s'.waiting = s.waiting ∧ s'.schedules = s.schedules := by
  have hset : ∀ {isFinalAwaiter : Bool} {status : CoroutineStatus}
      {own : CoroutineStatus → OwnPc}, (∀ prevStatus, (own prevStatus).awaits = false) →
      s' = s.setStatus isFinalAwaiter status
        (fun prevStatus s => { s with own := own prevStatus }) →
      s'.own.awaits = false ∧ s'.canceller = s.canceller ∧ s'.cancelled = s.cancelled ∧
        s'.pauses = s.pauses ∧ s'.waiting = s.waiting ∧ s'.schedules = s.schedules := by
    intro isFinalAwaiter status own hown he
    rw [State.setStatus] at he
    split at he <;> subst he
    · exact ⟨hown _, rfl, rfl, rfl, rfl, rfl⟩
    · exact ⟨hcalm, rfl, rfl, rfl, rfl, rfl⟩
  cases hown : s.own with
  | addAwaiter | addCount | ready | suspendRead | suspend isCancelled | register shouldSuspend =>
      rw [hown] at hcalm
      cases hcalm
  | body | parked | finalSuspended =>
      rw [hown] at ha
      cases ha
  | setRunning =>
      rw [hown] at ha
      refine hset (fun prevStatus => ?_) (Option.some.inj ha).symm
      split_ifs <;> rfl
  | setReturned | setCompleted | finalSuspend =>
      rw [hown] at ha
      exact hset (fun prevStatus => rfl) (Option.some.inj ha).symm
  | removeDequeue left =>
      rw [hown] at ha
      simp only [ownStep, Option.some.injEq] at ha
      subst ha
      split <;> exact ⟨rfl, rfl, rfl, rfl, rfl, rfl⟩
  | removeCount | removeEnqueue node left | removeEnqueueCount left =>
      rw [hown] at ha
      cases ha
      exact ⟨rfl, rfl, rfl, rfl, rfl, rfl⟩
  | removeListCount node left | spinPaused =>
      rw [hown] at ha
      cases ha
      refine ⟨?_, rfl, rfl, rfl, rfl, rfl⟩
      dsimp only
      split_ifs <;> rfl

theorem Once.ownStep {b₁ b₂ b₃ : Bool} (h : Once s)
    (ha : ownStep s b₁ b₂ b₃ s.own = some s') : Once s' := by
  have hp : s.pauses ≠ 0 := fun hp => by
    rw [(h.waits hp).1] at ha
    cases ha
  obtain ⟨hcalm, hcanceller, hcancelled, hpauses, hwaiting, hschedules⟩ := ownStep_calm h.calm ha
  obtain ⟨hinv, haborted⟩ := h.inv.ownStep ha
  rw [← hpauses] at hp
  refine ⟨hinv, haborted.trans h.runs, hcalm, ?_, ?_, ?_, (absurd · hp), fun _ => (absurd · hp),
    ?_, ?_⟩
  · rw [hcanceller, hpauses]
    exact h.early
  · rw [hcanceller, hpauses]
    exact h.pausing
  · rw [hcancelled, hpauses]
    exact h.paused
  · rw [hschedules, hwaiting]
    exact h.token
  · rw [hcanceller, hschedules, hwaiting]
    exact h.taken

section Cancellers

variable [DecidableEq Canceller] {i : Canceller} {q : CancelPc}

/-- A step of the canceller that has paused the coroutine. -/
theorem Once.moveLate (h : Once s) (hi : (s.canceller i).isPausing = true) (hinv : Inv s')
    (hcanceller : s'.canceller = Function.update s.canceller i q) (hq : q.isEarly = false)
    (hown : s'.own = s.own) (haborted : s'.aborted = s.aborted) (hpauses : s'.pauses = s.pauses)
    (hcancelled : s'.cancelled = s.cancelled)
    (htoken : s'.schedules + s'.waiting.toNat + q.schedules.toNat ≤ 1) : Once s' := by
  have hp : s'.pauses ≠ 0 := hpauses ▸ h.pausing i hi
  have halone := h.inv.alone (CancelPc.active_of_isPausing hi)
  refine ⟨hinv, haborted.trans h.runs, hown ▸ h.calm, fun j hj => ?_, fun _ _ => hp, ?_,
    (absurd · hp), fun _ => (absurd · hp), by omega, fun j hj => ?_⟩
  · rcases agent_cases (Q := fun p => p.isEarly = true) hcanceller hj with ⟨-, hj⟩ | ⟨hne, hj⟩
    · rw [hq] at hj
      cases hj
    · have := CancelPc.active_of_isEarly hj
      rw [halone j hne] at this
      cases this
  · rw [hpauses, hcancelled]
    exact h.paused
  · rcases agent_cases (Q := fun p => p.schedules = true) hcanceller hj with ⟨-, hj⟩ | ⟨hne, hj⟩
    · rw [hj, Bool.toNat_true] at htoken
      omega
    · have := CancelPc.active_of_isPausing (CancelPc.isPausing_of_schedules hj)
      rw [halone j hne] at this
      cases this

/-- A step of a canceller that does not yet pause the coroutine. -/
theorem Once.moveEarly (h : Once s) (hinv : Inv s')
    (hcanceller : s'.canceller = Function.update s.canceller i q)
    (hq : q.isEarly = true → s.pauses = 0) (hp : q.isPausing = false)
    (hkeeps : s' = { s with canceller := s'.canceller, cancelled := s'.cancelled })
    (hcancelled : s.cancelled = true → s'.cancelled = true)
    (hdue : s'.cancelled = true → s.pauses = 0 → q.isEarly = true ∧ q.marked = true ∨
      s.cancelled = true ∧ (s.canceller i).isEarly = false) : Once s' := by
  have hpausing : ∀ j, (s'.canceller j).isPausing = true → (s.canceller j).isPausing = true :=
    fun j hj => by
      rcases agent_cases (Q := fun p => p.isPausing = true) hcanceller hj with ⟨-, hj⟩ | ⟨-, hj⟩
      · rw [hp] at hj
        cases hj
      · exact hj
  have hpauses : s'.pauses = s.pauses := by rw [hkeeps]
  have hschedules : s'.schedules + s'.waiting.toNat = s.schedules + s.waiting.toNat := by
    rw [hkeeps]
  refine ⟨hinv, ?_, ?_, fun j hj => ?_, fun j hj => ?_, fun hp => ?_, fun hp => ?_,
    fun hc hp => ?_, ?_, fun j hj => ?_⟩
  · rw [hkeeps]
    exact h.runs
  · rw [hkeeps]
    exact h.calm
  · rw [hpauses]
    rcases agent_cases (Q := fun p => p.isEarly = true) hcanceller hj with ⟨-, hj⟩ | ⟨-, hj⟩
    · exact hq hj
    · exact h.early j hj
  · rw [hpauses]
    exact h.pausing j (hpausing j hj)
  · rw [hpauses] at hp ⊢
    exact (h.paused hp).imp_right hcancelled
  · rw [hpauses] at hp
    rw [hkeeps]
    exact h.waits hp
  · rw [hpauses] at hp
    rcases hdue hc hp with hq | ⟨hc, hi⟩
    · exact ⟨i, by rw [hcanceller, Function.update_self]; exact hq⟩
    · obtain ⟨j, hj⟩ := h.due hc hp
      have hne : j ≠ i := fun he => by
        rw [he, hi] at hj
        cases hj.1
      exact ⟨j, by rw [hcanceller, Function.update_of_ne hne]; exact hj⟩
  · rw [hschedules]
    exact h.token
  · rw [hschedules]
    rcases agent_cases (Q := fun p => p.schedules = true) hcanceller hj with ⟨-, hj⟩ | ⟨-, hj⟩
    · have := CancelPc.isPausing_of_schedules hj
      rw [hp] at this
      cases this
    · exact h.taken j hj

omit [DecidableEq Canceller] in
theorem Once.suspended (h : Once s) (hp : s.pauses = 0) : s.status = .suspended := by
  have hstatus := h.inv.resting fun i => by
    by_contra hn
    exact h.pausing i (by simpa using hn) hp
  rw [(h.waits hp).1] at hstatus
  exact List.mem_singleton.mp hstatus

theorem Once.pause (h : Once s) (hi : s.canceller i = .pause) :
    Once (s.setStatus false .pauseOnRunning fun prevStatus s =>
      if prevStatus = .suspended then
        { s.goCanceller i (.dequeue false) with pauses := s.pauses + 1 }
      else s.goCanceller i .returned) := by
  have hp := h.early i (by rw [hi]; rfl)
  have hinv := h.inv.pause hi
  rw [State.setStatus_pauseOnRunning (h.suspended hp), if_pos rfl] at hinv ⊢
  have halone := h.inv.alone (i := i) (by rw [hi]; rfl)
  have hcancelled := h.inv.marked i (by rw [hi]; rfl)
  refine ⟨hinv, h.runs, h.calm, fun j hj => ?_, fun _ _ => Nat.succ_ne_zero _,
    fun _ => ⟨by rw [hp], hcancelled⟩, nofun, nofun, h.token, fun j hj => ?_⟩
  · rcases agent_cases (Q := fun p : CancelPc => p.isEarly = true) rfl hj with
      ⟨-, hj⟩ | ⟨hne, hj⟩
    · cases hj
    · have := CancelPc.active_of_isEarly hj
      rw [halone j hne] at this
      cases this
  · rcases agent_cases (Q := fun p : CancelPc => p.schedules = true) rfl hj with
      ⟨-, hj⟩ | ⟨-, hj⟩
    · cases hj
    · exact h.taken j hj

theorem Once.cancelStep {b₁ b₂ : Bool} (h : Once s)
    (hserial : s.canceller i = .check → s.cancelled = false → ∀ j, s.canceller j ≠ .mark)
    (ha : cancelStep s i b₁ b₂ (s.canceller i) = some s') : Once s' := by
  have hinv := h.inv.cancelStep hserial ha
  have hearly := h.early i
  have htoken := h.token
  have htaken := h.taken i
  cases hi : s.canceller i with
  | idle | returned =>
      rw [hi] at ha
      cases ha
  | check =>
      rw [hi] at ha
      cases ha
      refine h.moveEarly hinv rfl (fun hq => ?_) ?_ rfl id fun hc _ => .inr ⟨hc, by rw [hi]; rfl⟩
      · split_ifs at hq with hc
        · cases hq
        · by_contra hp
          exact hc (h.paused hp).2
      · split_ifs <;> rfl
  | mark =>
      rw [hi] at ha hearly
      cases ha
      exact h.moveEarly hinv rfl (fun _ => hearly rfl) rfl rfl (fun _ => rfl)
        fun _ _ => .inl ⟨rfl, rfl⟩
  | status =>
      rw [hi] at ha hearly
      simp only [CoroutineCancel.cancelStep, if_pos (h.suspended (hearly rfl)),
        Option.some.injEq] at ha
      subst ha
      exact h.moveEarly hinv rfl (fun _ => hearly rfl) rfl rfl id fun _ _ => .inl ⟨rfl, rfl⟩
  | isEmpty =>
      rw [hi] at ha hearly
      simp only [CoroutineCancel.cancelStep, (h.waits (hearly rfl)).2.1, List.cons_ne_nil,
        if_false, Option.some.injEq] at ha
      subst ha
      exact h.moveEarly hinv rfl (fun _ => hearly rfl) rfl rfl id fun _ _ => .inl ⟨rfl, rfl⟩
  | pause =>
      rw [hi] at ha
      cases ha
      exact h.pause hi
  | dequeue found =>
      rw [hi] at ha
      simp only [CoroutineCancel.cancelStep, Option.some.injEq] at ha
      subst ha
      split
      · exact h.moveLate (by rw [hi]; rfl) (by simpa [*] using hinv) rfl rfl rfl rfl rfl rfl htoken
      · exact h.moveLate (by rw [hi]; rfl) (by simpa [*] using hinv) rfl rfl rfl rfl rfl rfl htoken
  | listCount awaiter found =>
      rw [hi] at ha
      cases ha
      exact h.moveLate (by rw [hi]; rfl) hinv rfl rfl rfl rfl rfl rfl htoken
  | maybeBlocked awaiter found | checkPaused found =>
      rw [hi] at ha
      cases ha
      refine h.moveLate (by rw [hi]; rfl) hinv rfl ?_ rfl rfl rfl rfl ?_
      · split_ifs <;> rfl
      · split_ifs <;> exact htoken
  | cancelAwaiter awaiter found =>
      rw [hi] at ha
      simp only [CoroutineCancel.cancelStep] at ha
      split_ifs at ha with htakes hwaiting <;> cases ha
      · refine h.moveLate (by rw [hi]; rfl) hinv rfl rfl rfl rfl rfl rfl ?_
        rw [hwaiting] at htoken
        exact htoken
      · exact h.moveLate (by rw [hi]; rfl) hinv rfl rfl rfl rfl rfl rfl htoken
  | schedule found =>
      rw [hi] at ha htaken
      cases ha
      refine h.moveLate (by rw [hi]; rfl) hinv rfl rfl rfl rfl rfl rfl ?_
      have := htaken rfl
      simp only [State.goCanceller, State.schedule, CancelPc.schedules, Bool.toNat_false]
      omega
  | resume =>
      have hstatus := h.inv.pausing i (by rw [hi]; rfl)
      obtain ⟨new, hset, -⟩ := OwnPc.resume_cases hstatus
      rw [hi] at ha
      simp only [CoroutineCancel.cancelStep, State.setStatus_eq hset, Option.some.injEq] at ha
      subst ha
      exact h.moveLate (by rw [hi]; rfl) hinv rfl rfl rfl rfl rfl rfl htoken

theorem Once.start (Canceller : Type*) (kind : AwaiterKind) :
    Once (suspendedOn kind : State Canceller) where
  inv := Inv.start_suspendedOn Canceller kind
  runs := rfl
  calm := rfl
  early _ := nofun
  pausing _ := nofun
  paused hp := absurd rfl hp
  waits _ := ⟨rfl, rfl, rfl, rfl⟩
  due := nofun
  token := le_refl 1
  taken _ := nofun

omit [DecidableEq Canceller] in
theorem Once.moveOwn (h : Once s) (hp : s.pauses ≠ 0) (hinv : Inv s')
    (hcalm : s'.own.awaits = false)
    (hkeeps : s' = { s with own := s'.own, queued := s'.queued }) : Once s' := by
  rw [hkeeps] at hinv ⊢
  exact ⟨hinv, h.runs, hcalm, h.early, h.pausing, h.paused, (absurd · hp),
    fun _ => (absurd · hp), h.token, h.taken⟩

omit [DecidableEq Canceller] in
theorem Once.pauses_ne_zero (h : Once s) (hrest : s.own = .parked → 0 < s.queued) :
    s.pauses ≠ 0 := by
  intro hp
  obtain ⟨hown, -, -, hqueued⟩ := h.waits hp
  have := hrest hown
  omega

theorem step_of_cancelSystem {a : Action Canceller}
    (ha : (cancelSystem Canceller).step s a = some s') : step s a = some s' := by
  cases a with
  | source cancels => cases ha
  | _ => exact ha

theorem Once.step {a : Action Canceller} (h : Once s) (hserial : Serial s a)
    (ha : (cancelSystem Canceller).step s a = some s') : Once s' := by
  have hstep := step_of_cancelSystem ha
  have hinv := h.inv.step hserial hstep
  unfold CoroutineCancel.step at hstep
  obtain ⟨-, hstep⟩ := Option.ite_none_left_eq_some.mp hstep
  cases a with
  | source cancels => cases ha
  | await kind =>
      obtain ⟨⟨hown, -⟩, hstep⟩ := Option.ite_none_right_eq_some.mp hstep
      have hp := h.pauses_ne_zero fun hparked => by rw [hown] at hparked; cases hparked
      rw [if_pos (h.paused hp).2] at hstep
      obtain rfl := Option.some.inj hstep
      exact h
  | finish =>
      obtain ⟨hown, hstep⟩ := Option.ite_none_right_eq_some.mp hstep
      obtain rfl := Option.some.inj hstep
      have hp := h.pauses_ne_zero fun hparked => by rw [hown] at hparked; cases hparked
      exact h.moveOwn hp hinv rfl rfl
  | own b₁ b₂ b₃ => exact h.ownStep hstep
  | resume =>
      obtain ⟨⟨-, hqueued⟩, hstep⟩ := Option.ite_none_right_eq_some.mp hstep
      obtain rfl := Option.some.inj hstep
      exact h.moveOwn (h.pauses_ne_zero fun _ => hqueued) hinv rfl rfl
  | cancel i =>
      obtain ⟨hidle, hstep⟩ := Option.ite_none_right_eq_some.mp hstep
      obtain rfl := Option.some.inj hstep
      exact h.moveEarly hinv rfl nofun rfl rfl id fun hc _ => .inr ⟨hc, by rw [hidle]; rfl⟩
  | canceller i b₁ b₂ => exact h.cancelStep hserial hstep

/-- While no call of `cancel` tests `m_cancelled` between the test of another call and its
write: no status request aborts, one call pauses the coroutine and lets it go on, and
in the end the coroutine is cancelled and was scheduled at most once. -/
theorem concurrent_cancels_as_one (hs : (cancelSystem Canceller).ReachWhile Serial s) :
    s.aborted = false ∧ s.pauses ≤ 1 ∧ s.schedules ≤ 1 ∧
    (∀ i, s.canceller i = .returned → s.cancelled = true) ∧
    ((∃ i, s.canceller i = .returned) → (∀ i, (s.canceller i).active = false) →
      s.pauses = 1 ∧ s.status ≠ .pauseOnRunning ∧ s.status ≠ .paused) := by
  have h : Once s := by
    refine hs.invariant (I := Once) ?_ fun s a s' h hserial ha => h.step hserial ha
    rintro s ⟨kind, -, rfl⟩
    exact Once.start Canceller kind
  have hcancelled : ∀ i, s.canceller i = .returned → s.cancelled = true :=
    fun i hi => h.inv.marked i (by rw [hi]; rfl)
  have htoken := h.token
  refine ⟨h.runs, ?_, by omega, hcancelled, fun ⟨i, hi⟩ hrest => ⟨?_, ?_⟩⟩
  · by_cases hp : s.pauses = 0
    · omega
    · rw [(h.paused hp).1]
  · by_contra hp
    have hp : s.pauses = 0 := by
      by_contra hne
      exact hp (h.paused hne).1
    obtain ⟨j, hj, -⟩ := h.due (hcancelled i hi) hp
    have := CancelPc.active_of_isEarly hj
    rw [hrest j] at this
    cases this
  · have hstatus := h.inv.resting fun j => by
      by_contra hn
      have := CancelPc.active_of_isPausing (q := s.canceller j) (by simpa using hn)
      rw [hrest j] at this
      cases this
    constructor <;> intro he <;> rw [he] at hstatus <;> cases hown : s.own <;>
      simp [hown, OwnPc.statuses] at hstatus

instance [Fintype Canceller] (s : State Canceller) (a : Action Canceller) :
    Decidable (Serial s a) :=
  match a with
  | .canceller i _ _ => inferInstanceAs
      (Decidable (s.canceller i = .check → s.cancelled = false → ∀ j, s.canceller j ≠ .mark))
  | .await _ | .finish | .own _ _ _ | .source _ | .resume | .cancel _ =>
      inferInstanceAs (Decidable True)

end Cancellers

theorem concurrent_cancels_as_one_event : ∃ s : State (Fin 2),
    (cancelSystem (Fin 2)).Reach s ∧ (∀ i, s.canceller i = .returned) ∧ s.schedules = 1 ∧
      s.pauses = 1 := by
  obtain ⟨s, hs, hreturned, hschedules⟩ := StepSystem.Reach.exists_of_exec
    (M := (cancelSystem (Fin 2)).restrict Serial)
    (P := fun s => (∀ i, s.canceller i = .returned) ∧ s.schedules = 1)
    (.start ⟨.event, rfl, rfl⟩)
    ([.cancel 0, .cancel 1] ++ List.replicate 2 (.canceller 0 true true) ++
      [.canceller 1 true true] ++ List.replicate 10 (.canceller 0 true true) ++ [.resume] ++
      List.replicate 3 (.own true true true) ++ [.canceller 0 true true]) (by decide)
  exact ⟨s, hs.reachWhile.reach, hreturned, hschedules,
    ((concurrent_cancels_as_one hs.reachWhile).2.2.2.2 ⟨0, hreturned 0⟩
      fun i => by rw [hreturned i]; rfl).1⟩

/-- Both calls find `m_cancelled` false, and the second request for `PauseOnRunning` finds
`PauseOnRunning`. -/
theorem concurrent_cancels_abort :
    ¬ ∀ s : State (Fin 2), (cancelSystem (Fin 2)).Reach s → s.aborted = false := by
  intro h
  obtain ⟨s, hs, haborted⟩ := StepSystem.Reach.exists_of_exec (M := cancelSystem (Fin 2))
    (P := fun s => s.aborted = true) (.start ⟨.event, rfl, rfl⟩)
    ([.cancel 0, .cancel 1, .canceller 0 true true, .canceller 1 true true] ++
      List.replicate 3 (.canceller 0 true true) ++ List.replicate 3 (.canceller 1 true true) ++
      [.canceller 0 true true, .canceller 1 true true]) (by decide)
  rw [h s hs] at haborted
  cases haborted

end LevelzAsync.CoroutineCancel
