import LevelzAsync.CountDownEventWaits

/-!
# No wake-up of the counting event is lost, doubled or early

When no call is under way, a count of zero leaves no waiter behind. A coroutine
is scheduled at most once for each time it was put into the list, and by the
event only by a thread that had it in hand and saw the count at zero.
-/

namespace LevelzAsync.CountDownEvent

variable {Thread Co : Type*} [DecidableEq Thread] {s s' : State Thread Co} {t : Thread} {c : Co}
  {p : Call Co}

section Watched

theorem Watched.of_responsible (hcall : s'.call = Function.update s.call t p)
    (hp : p.responsible = true) : Watched s' := fun _ _ =>
  ⟨t, by rw [hcall, Function.update_self]; exact hp⟩

/-- A call that stops being responsible has found nobody to wake, or a count
that is not zero. -/
theorem Watched.go (hw : Watched s) (hcall : s'.call = Function.update s.call t p)
    (hcount : s'.count = 0 → s.count = 0) (hqueue : s'.waitQueue ≠ [] → s.waitQueue ≠ [])
    (hp : (s.call t).responsible = true → s'.count = 0 → s'.waitQueue ≠ [] →
      p.responsible = true) : Watched s' := by
  intro hzero hne
  obtain ⟨u, hu⟩ := hw (hcount hzero) (hqueue hne)
  refine ⟨u, ?_⟩
  by_cases hut : u = t
  · subst hut
    rw [hcall, Function.update_self]
    exact hp hu hzero hne
  · rw [hcall, Function.update_of_ne hut]
    exact hu

theorem Watched.returnResume (hw : Watched s) {caller : Caller Co}
    (hp : s.count = 0 → s.waitQueue = []) : Watched (s.returnResume t caller) := by
  have hidle : ∀ p : Call Co, Watched (s.go t p) := fun p =>
    hw.go rfl id id fun _ hzero hne => absurd (hp hzero) hne
  cases caller with
  | countDown | enqueue => exact hidle _
  | remove c removed => exact hidle _

variable [DecidableEq Co]

theorem Watched.callStep (hw : Watched s) {spurious : Bool}
    (h : callStep s t spurious (s.call t) = some s') : Watched s' := by
  have hquiet : ∀ {q p : Call Co}, s.call t = q → q.responsible = false → Watched (s.go t p) :=
    fun hp hq => hw.go rfl id id fun hr => by rw [hp, hq] at hr; cases hr
  cases hp : s.call t with
  | idle =>
      rw [hp] at h
      cases h
  | countDownLoad | countUpLoad =>
      rw [hp] at h
      cases h
      exact hquiet hp rfl
  | countDownCas prevCount =>
      rw [hp] at h
      cases h
      split_ifs with h₁ h₂ h₃
      · exact hquiet hp rfl
      · exact hquiet hp rfl
      · exact .of_responsible rfl rfl
      · refine hw.go rfl (fun hzero => ?_) id fun hr => by rw [hp] at hr; cases hr
        have hzero : prevCount - 1 = 0 := hzero
        omega
  | countUpCas prevCount =>
      rw [hp] at h
      cases h
      split_ifs
      · exact hquiet hp rfl
      · exact hquiet hp rfl
      · exact hw.go rfl nofun id nofun
  | enqueueIsZero c =>
      rw [hp] at h
      cases h
      split_ifs
      · exact hw.go rfl id id fun hr => by rw [hp] at hr; cases hr
      · exact hquiet hp rfl
  | removeIsZero c =>
      rw [hp] at h
      cases h
      exact hquiet hp rfl
  | cancelSchedule c =>
      rw [hp] at h
      cases h
      exact hw.go rfl id id fun hr => by rw [hp] at hr; cases hr
  | enqueueRecheck =>
      rw [hp] at h
      cases h
      split_ifs with hzero
      · exact .of_responsible rfl rfl
      · exact hw.go rfl id id fun _ hz => absurd (decide_eq_true hz) hzero
  | resumeDequeue caller =>
      rw [hp] at h
      cases hqueue : s.waitQueue with
      | nil =>
          simp only [CountDownEvent.callStep, hqueue] at h
          cases h
          exact hw.returnResume fun _ => hqueue
      | cons node rest =>
          simp only [CountDownEvent.callStep, hqueue] at h
          cases h
          exact .of_responsible rfl rfl
  | resumeIsZero node caller =>
      rw [hp] at h
      cases h
      split_ifs <;> exact .of_responsible rfl rfl
  | resumeRecheck caller =>
      rw [hp] at h
      cases h
      split_ifs with hzero
      · exact .of_responsible rfl rfl
      · exact hw.returnResume fun hz => absurd (decide_eq_true hz) hzero
  | removeDequeue c left =>
      rw [hp] at h
      simp only [CountDownEvent.callStep] at h
      split at h <;> cases h <;> exact .of_responsible rfl rfl
  | removeListCount c node left =>
      rw [hp] at h
      cases h
      split_ifs <;> exact .of_responsible rfl rfl
  | removeRecheck c removed =>
      rw [hp] at h
      cases h
      split_ifs with hzero
      · exact .of_responsible rfl rfl
      · exact hw.go rfl id id fun _ hz => absurd (decide_eq_true hz) hzero
  | enqueuePush | enqueueListCount | resumeListCount | resumeListCountUp | resumeEnqueue
  | resumeSchedule | removeCount | removeListCountUp | removeEnqueue =>
      rw [hp] at h
      cases h
      exact .of_responsible rfl rfl

theorem watched_of_reach (hs : (system Thread Co).Reach s) : Watched s := by
  refine hs.invariant (fun s h => ?_) fun s a s' hw ha => ?_
  · obtain ⟨_, _, rfl⟩ := h
    exact fun _ hne => absurd rfl hne
  · have hbegin : ∀ {t : Thread} {p : Call Co}, s.call t = .idle → Watched (s.go t p) :=
      fun hp => hw.go rfl id id fun hr => by rw [hp] at hr; cases hr
    cases a with
    | countDown t | countUp t =>
        obtain ⟨hp, he⟩ := Option.ite_none_right_eq_some.mp ha
        cases he
        exact hbegin hp
    | enqueue c t =>
        obtain ⟨⟨hp, _⟩, he⟩ := Option.ite_none_right_eq_some.mp ha
        cases he
        exact hw.go rfl id id fun hr => by rw [hp] at hr; cases hr
    | cancel c t =>
        obtain ⟨hp, he⟩ := Option.ite_none_right_eq_some.mp ha
        cases he
        exact hbegin hp
    | call t spurious => exact hw.callStep ha

/-- With no call under way, nobody waits for a count that is zero. -/
theorem no_waiter_of_zero (hs : (system Thread Co).Reach s)
    (hflight : ∀ t, (s.call t).inFlight = false) (hzero : s.count = 0) : s.waitQueue = [] := by
  by_contra hne
  obtain ⟨t, ht⟩ := watched_of_reach hs hzero hne
  have hin := Call.responsible_inFlight ht
  rw [hflight t] at hin
  cases hin

/-- The coroutine enters the list of a set event, and the second thread counts
the event down. -/
theorem no_waiter_of_zero_count_down : ∃ s : State (Fin 2) Unit,
    s.enqueues () = 1 ∧ s.count = 0 ∧ s.waitQueue = [] := by
  let run : List (Action (Fin 2) Unit) := [.enqueue () 0, .call 0 false, .call 0 false,
    .countDown 1, .call 1 false, .call 1 false, .call 1 false, .call 0 false, .call 0 false,
    .call 1 false, .call 1 false, .call 1 false, .call 1 false, .call 1 false, .call 0 false]
  obtain ⟨s, hr, hflight, he, hzero⟩ := StepSystem.Reach.exists_of_exec (M := system (Fin 2) Unit)
    (P := fun s => (∀ t, (s.call t).inFlight = false) ∧ s.enqueues () = 1 ∧ s.count = 0)
    (s := initial false 1) (.start ⟨_, _, rfl⟩) run (by decide)
  exact ⟨s, he, hzero, no_waiter_of_zero hr hflight hzero⟩

end Watched

section Schedules

variable [DecidableEq Co]

/-- What a step of the thread does to the schedules and to the enqueues. -/
structure Does (s s' : State Thread Co) (t : Thread) (p : Call Co) : Prop where
  call : s'.call = Function.update s.call t p
  seesZero : ∀ c caller, p = .resumeSchedule c caller →
    s.call t = .resumeIsZero c caller ∧ s.count = 0
  enqueues : ∀ c, s'.enqueues c ≠ s.enqueues c → s.call t = .enqueuePush c
  eventSchedules : ∀ c, s'.eventSchedules c ≠ s.eventSchedules c →
    ∃ caller, s.call t = .resumeSchedule c caller

omit [DecidableEq Co] in
theorem Does.quiet (hcall : s'.call = Function.update s.call t p)
    (hp : ∀ c caller, p ≠ .resumeSchedule c caller) (he : s'.enqueues = s.enqueues)
    (hv : s'.eventSchedules = s.eventSchedules) : Does s s' t p :=
  ⟨hcall, fun c caller h => absurd h (hp c caller), fun c h => absurd (congrFun he c) h,
    fun c h => absurd (congrFun hv c) h⟩

omit [DecidableEq Co] in
theorem returnResume_does {caller : Caller Co} : ∃ p, Does s (s.returnResume t caller) t p := by
  cases caller with
  | countDown | enqueue => exact ⟨_, .quiet rfl nofun rfl rfl⟩
  | remove c removed =>
      cases removed with
      | false => exact ⟨_, .quiet rfl nofun rfl rfl⟩
      | true => exact ⟨_, .quiet rfl nofun rfl rfl⟩

theorem callStep_does {spurious : Bool} (h : callStep s t spurious (s.call t) = some s') :
    ∃ p, Does s s' t p := by
  cases hp : s.call t with
  | idle =>
      rw [hp] at h
      cases h
  | enqueuePush c =>
      rw [hp] at h
      cases h
      refine ⟨_, rfl, nofun, fun d hd => ?_, fun d hd => absurd rfl hd⟩
      by_cases hdc : d = c
      · exact hdc ▸ hp
      · exact absurd (Function.update_of_ne hdc ..) hd
  | resumeSchedule node caller =>
      rw [hp] at h
      cases h
      refine ⟨_, rfl, nofun, fun d hd => absurd rfl hd, fun d hd => ?_⟩
      by_cases hdc : d = node
      · exact ⟨caller, hdc ▸ hp⟩
      · exact absurd (Function.update_of_ne hdc ..) hd
  | resumeIsZero node caller =>
      rw [hp] at h
      cases h
      split_ifs with hzero
      · refine ⟨_, rfl, fun d caller' he => ?_, fun d hd => absurd rfl hd, fun d hd =>
          absurd rfl hd⟩
        cases he
        exact ⟨hp, of_decide_eq_true hzero⟩
      · exact ⟨_, .quiet rfl nofun rfl rfl⟩
  | resumeDequeue caller =>
      rw [hp] at h
      have he := Option.some.inj h
      cases hqueue : s.waitQueue with
      | nil =>
          rw [hqueue] at he
          subst he
          exact returnResume_does
      | cons node rest =>
          rw [hqueue] at he
          subst he
          exact ⟨_, .quiet rfl nofun rfl rfl⟩
  | resumeRecheck caller =>
      rw [hp] at h
      cases h
      split_ifs
      · exact ⟨_, .quiet rfl nofun rfl rfl⟩
      · exact returnResume_does
  | removeDequeue c left =>
      rw [hp] at h
      have he := Option.some.inj h
      cases left with
      | zero =>
          subst he
          exact ⟨_, .quiet rfl nofun rfl rfl⟩
      | succ left =>
          cases hqueue : s.waitQueue with
          | nil =>
              rw [hqueue] at he
              subst he
              exact ⟨_, .quiet rfl nofun rfl rfl⟩
          | cons node rest =>
              rw [hqueue] at he
              subst he
              exact ⟨_, .quiet rfl nofun rfl rfl⟩
  | removeRecheck c removed =>
      rw [hp] at h
      cases h
      cases removed <;> split_ifs <;> exact ⟨_, .quiet rfl nofun rfl rfl⟩
  | countDownCas | countUpCas | enqueueIsZero | enqueueRecheck | removeIsZero
  | removeListCount =>
      rw [hp] at h
      cases h
      split_ifs <;> exact ⟨_, .quiet rfl nofun rfl rfl⟩
  | _ =>
      rw [hp] at h
      cases h
      exact ⟨_, .quiet rfl nofun rfl rfl⟩

theorem step_does {a : Action Thread Co} (h : step s a = some s') :
    ∃ t p, Does s s' t p ∧ (s'.eventSchedules ≠ s.eventSchedules →
      ∃ spurious, a = .call t spurious) := by
  cases a with
  | countDown t | countUp t | enqueue _ t | cancel _ t =>
      obtain ⟨_, he⟩ := Option.ite_none_right_eq_some.mp h
      cases he
      exact ⟨t, _, .quiet rfl nofun rfl rfl, fun hne => absurd rfl hne⟩
  | call t spurious =>
      obtain ⟨p, hp⟩ := callStep_does h
      exact ⟨t, p, hp, fun _ => ⟨spurious, rfl⟩⟩

omit [DecidableEq Co] in
/-- A waiting coroutine is not put into the list again. -/
theorem Waits.enqueues_eq (hw : Waits s) (hd : Does s s' t p)
    (hin : InCustody (fun _ : Unit => s.waitQueue) s.holds c) : s'.enqueues c = s.enqueues c := by
  by_contra hne
  have hasks := hd.enqueues c hne
  have heq := (hw.asks t c (by rw [hasks]; rfl)).2
  have := hw.ledger.inside c hin
  omega

/-- A thread that is about to schedule a coroutine in `resumeWaiting` had it in
hand, in an earlier state, when the count was zero. -/
theorem zero_seen {s₀ : State Thread Co} {as : List (Action Thread Co)}
    (hstart : (system Thread Co).start s₀) (hrun : (system Thread Co).exec s₀ as = some s)
    {caller : Caller Co} (hc : s.call t = .resumeSchedule c caller) :
    ∃ pre post s₁, as = pre ++ post ∧ (system Thread Co).exec s₀ pre = some s₁ ∧ s₁.count = 0 ∧
      (s₁.call t).resumes = some c ∧ s₁.enqueues c = s.enqueues c := by
  induction as using List.reverseRecOn generalizing s with
  | nil =>
      obtain ⟨_, _, rfl⟩ := hstart
      cases hrun
      cases hc
  | append_singleton as a ih =>
      obtain ⟨s₁, hrun₁, ha⟩ := StepSystem.exec_concat _ hrun
      obtain ⟨u, p, hd, _⟩ := step_does ha
      have hw : Waits s₁ := waits_of_reach (StepSystem.Reach.exec (.start hstart) hrun₁)
      by_cases hu : t = u
      · subst hu
        rw [hd.call, Function.update_self] at hc
        obtain ⟨hp, hzero⟩ := hd.seesZero c caller hc
        have hin : InCustody (fun _ : Unit => s₁.waitQueue) s₁.holds c :=
          ⟨.inr (t, .resume), by simp [StoredAt, State.holds, hp, Call.held, Call.resumes]⟩
        exact ⟨as, [a], s₁, rfl, hrun₁, hzero, by rw [hp]; rfl, (hw.enqueues_eq hd hin).symm⟩
      · rw [hd.call, Function.update_of_ne hu] at hc
        have hin : InCustody (fun _ : Unit => s₁.waitQueue) s₁.holds c :=
          ⟨.inr (t, .resume), by simp [StoredAt, State.holds, hc, Call.held, Call.resumes]⟩
        obtain ⟨pre, post, s₂, rfl, hrun₂, hzero, hresumes, he⟩ := ih hrun₁ hc
        exact ⟨pre, post ++ [a], s₂, by rw [List.append_assoc], hrun₂, hzero, hresumes,
          he.trans (hw.enqueues_eq hd hin).symm⟩

/-- In the state that a run comes to, a coroutine was scheduled once for each time
it was put into the list, up to the last time if it still waits, in one place;
and when the next step is the event's schedule of a coroutine, the scheduling
thread had it in hand after its last `enqueue` when the count was zero. -/
theorem waiter_woken_once_and_not_early {s₀ : State Thread Co} {as : List (Action Thread Co)}
    (hstart : (system Thread Co).start s₀) (hrun : (system Thread Co).exec s₀ as = some s) :
    (∀ c, s.eventSchedules c + s.cancelSchedules c ≤ s.enqueues c ∧
      s.enqueues c ≤ s.eventSchedules c + s.cancelSchedules c + 1) ∧
    (∀ c, s.eventSchedules c + s.cancelSchedules c < s.enqueues c →
      ∃! p, StoredAt (fun _ : Unit => s.waitQueue) s.holds c p) ∧
    ∀ a s' c, step s a = some s' → s'.eventSchedules c ≠ s.eventSchedules c →
      ∃ t spurious pre post s₁, a = .call t spurious ∧ as = pre ++ post ∧
        (system Thread Co).exec s₀ pre = some s₁ ∧ s₁.count = 0 ∧
        (s₁.call t).resumes = some c ∧ s₁.enqueues c = s.enqueues c := by
  have hw : Waits s := waits_of_reach (StepSystem.Reach.exec (.start hstart) hrun)
  refine ⟨fun c => ⟨hw.ledger.left_le c, hw.ledger.le_left_add_one c⟩,
    fun c hc => hw.ledger.existsUnique_place hc, fun a s' c ha hne => ?_⟩
  obtain ⟨t, p, hd, hcall⟩ := step_does ha
  obtain ⟨caller, hp⟩ := hd.eventSchedules c hne
  obtain ⟨spurious, rfl⟩ := hcall fun h => hne (congrFun h c)
  obtain ⟨pre, post, s₁, has, hpre, hzero, hresumes, he⟩ := zero_seen hstart hrun hp
  exact ⟨t, spurious, pre, post, s₁, rfl, has, hpre, hzero, hresumes, he⟩

/-- The second thread schedules the coroutine after it has counted the event
down. -/
theorem waiter_woken_once_and_not_early_count_down : ∃ (pre : List (Action (Fin 2) Unit)) (s₁ : _),
    (system (Fin 2) Unit).exec (initial false 1) pre = some s₁ ∧ s₁.count = 0 ∧
      ∃ t, (s₁.call t).resumes = some () := by
  let M := system (Fin 2) Unit
  let run : List (Action (Fin 2) Unit) := [.enqueue () 0, .call 0 false, .call 0 false,
    .countDown 1, .call 1 false, .call 1 false, .call 1 false, .call 0 false, .call 0 false,
    .call 1 false, .call 1 false]
  have hrun : ((M.exec (initial false 1) (run ++ [.call 1 false])).any
      fun s => s.eventSchedules () = 1) = true := by decide
  obtain ⟨s', hrun', hs'⟩ := (Option.any_eq_true ..).mp hrun
  obtain ⟨s, hs, ha⟩ := StepSystem.exec_concat M hrun'
  change step s (.call 1 false) = some s' at ha
  have hzero : (M.exec (initial false 1) run).all (fun s => s.eventSchedules () = 0) = true := by
    decide
  rw [hs] at hzero
  have hne : s'.eventSchedules () ≠ s.eventSchedules () := by
    rw [of_decide_eq_true hs', of_decide_eq_true hzero]
    decide
  obtain ⟨t, _, pre, _, s₁, _, _, hpre, hcount, hresumes, _⟩ :=
    (waiter_woken_once_and_not_early ⟨_, _, rfl⟩ hs).2.2 _ s' () ha hne
  exact ⟨pre, s₁, hpre, hcount, t, hresumes⟩

end Schedules

end LevelzAsync.CountDownEvent
