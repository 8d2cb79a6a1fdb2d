import LevelzAsync.CountDownEventWakeUps
import LevelzAsync.EventDestruction

/-!
# Chained events

`enqueue(AsyncCountDownEvent&)` and `enqueue(SyncManualResetEvent&)` attach a target
by a chained task. The task comes to a pool at most once, and it comes there because
the count of the source was zero, unless the destructor of the source takes it out of
the wait list: the destructor marks it cancelled, and the task does not look.
-/

namespace LevelzAsync.EventDestructor

open CountDownEvent (Call inHand Flow)

variable {Thread Co : Type*}

/-- The task is in a pool, or on its way to one for good. -/
def Released (s : State Thread Co) (c : Co) : Prop :=
  s.event.eventSchedules c ≠ 0 ∨ s.alwaysSchedules c ≠ 0 ∨ s.destructorSchedules c ≠ 0 ∨
    (∃ t caller, s.event.call t = .resumeSchedule c caller) ∨ (∃ t, s.refused t = some c) ∨
    s.destructor.held = some c

def attaching [Fintype Thread] [DecidableEq Co] (s : State Thread Co) (c : Co) : ℕ :=
  ∑ t, inHand (s.event.call t).asks c + ∑ t, inHand (s.refused t) c

structure Chain [Fintype Thread] [DecidableEq Co] (chained : Co → Bool) (s : State Thread Co) :
    Prop where
  inv : Inv s
  once : ∀ c, chained c = true →
    s.event.enqueues c + s.alwaysSchedules c + attaching s c = (s.attached c).toNat
  refused : ∀ t c, s.refused t = some c → chained c = true ∧ s.event.call t = .idle
  uncancelled : ∀ c, chained c = true →
    s.event.cancelSchedules c = 0 ∧ ∀ t, (s.event.call t).cancels ≠ some c
  seen : ∀ c, s.attached c = true → s.event.isZero = true → s.sawZero c = true
  attached : ∀ c, s.sawZero c = true → s.attached c = true
  runs : ∀ c, chained c = true → s.runs c ≤ s.schedules c
  reason : ∀ c, chained c = true → Released s c → s.sawZero c = true

/-- The destructor of the source takes a chained task out of the wait list only when the
count was zero since the task was attached. -/
def Signalled (chained : Co → Bool) (s : State Thread Co) : Action Thread Co → Prop
  | .destructor => s.destructor = .dequeue → ∀ c, s.event.waitQueue.head? = some c →
      chained c = true → s.sawZero c = true
  | _ => True

section Steps

variable [Fintype Thread] [DecidableEq Thread] [DecidableEq Co] {s s' : State Thread Co}
  {chained : Co → Bool} {t : Thread}

omit [DecidableEq Thread] in
theorem Chain.observe (h : Chain chained s) (hinv : Inv s')
    (hattached : ∀ c, s.attached c = true → s'.attached c = true)
    (honce : ∀ c, chained c = true →
      s'.event.enqueues c + s'.alwaysSchedules c + attaching s' c = (s'.attached c).toNat)
    (hrefused : ∀ t c, s'.refused t = some c → chained c = true ∧ s'.event.call t = .idle)
    (huncancelled : ∀ c, chained c = true →
      s'.event.cancelSchedules c = 0 ∧ ∀ t, (s'.event.call t).cancels ≠ some c)
    (hruns : ∀ c, chained c = true → s'.runs c ≤ s'.schedules c) (hsawZero : s'.sawZero = s.sawZero)
    (hreleased : ∀ c, chained c = true → Released s' c → s.sawZero c = true) :
    Chain chained s'.observe where
  inv := hinv.observe
  once := honce
  refused := hrefused
  uncancelled := huncancelled
  seen c hc hzero := by
    have hc : s'.attached c = true := hc
    have hzero : s'.event.isZero = true := hzero
    simp [State.observe, hc, hzero]
  attached c hc := (Bool.and_eq_true_iff.mp hc).1
  runs := hruns
  reason c hchained hc := by
    have hsaw := hreleased c hchained hc
    have := hattached c (h.attached c hsaw)
    simp [State.observe, this, hsawZero, hsaw]

omit [DecidableEq Thread] in
/-- A chained task that somebody has in hand, or wants to enqueue, was attached. -/
theorem Chain.attached_of_pos (h : Chain chained s) {c : Co} (hc : chained c = true)
    (hpos : 0 < s.event.enqueues c + attaching s c) : s.attached c = true := by
  have := h.once c hc
  by_contra hn
  rw [show s.attached c = false by simpa using hn, Bool.toNat_false] at this
  omega

omit [DecidableEq Thread] in
theorem Chain.attached_of_asks (h : Chain chained s) {c : Co} (hc : chained c = true)
    (ht : (s.event.call t).asks = some c) : s.attached c = true := by
  have hle := le_sum_tally s.event.call (fun p => inHand p.asks c) t
  have hone : inHand (some c) c = 1 := if_pos rfl
  rw [ht, hone] at hle
  exact h.attached_of_pos hc (by unfold attaching; omega)

omit [DecidableEq Thread] in
theorem Chain.attached_of_resumes (h : Chain chained s) {c : Co} (hc : chained c = true)
    (ht : (s.event.call t).resumes = some c) : s.attached c = true := by
  have hle := le_sum_tally s.event.call (fun p => p.holding c) t
  have hone : inHand (some c) c = 1 := if_pos rfl
  rw [Call.holding, ht, hone] at hle
  have htally := h.inv.tally c
  exact h.attached_of_pos hc (by omega)

theorem Chain.begins {event : CountDownEvent.State Thread Co} {p : Call Co} {cancelled : Co → Bool}
    {attached : Co → Bool} (h : Chain chained s)
    (hb : CountDownEvent.Begins s.event event t p)
    (hinv : Inv { s with event := event, cancelled := cancelled, attached := attached })
    (hattached : ∀ c, s.attached c = true → attached c = true)
    (hidle : s.refused t = none)
    (honce : ∀ c, chained c = true →
      inHand p.asks c + (s.attached c).toNat = (attached c).toNat)
    (hcancels : ∀ c, chained c = true → p.cancels ≠ some c)
    (hp : ∀ c caller, p ≠ .resumeSchedule c caller) :
    Chain chained
      ({ s with event := event, cancelled := cancelled, attached := attached } :
        State Thread Co).observe := by
  refine h.observe hinv hattached (fun c hc => ?_) (fun u c hu => ?_) (fun c hc => ⟨?_, ?_⟩)
    (fun c hc => ?_) rfl fun c hc hr => h.reason c hc ?_
  · have hold := h.once c hc
    have hnew := honce c hc
    have hsum := sum_update_tally s.event.call (fun p => inHand p.asks c) t p
    rw [← hb.call, hb.idle, show inHand (Call.idle : Call Co).asks c = 0 from rfl] at hsum
    simp only [attaching, hb.enqueues] at hold ⊢
    omega
  · refine ⟨(h.refused u c hu).1, ?_⟩
    have hne : u ≠ t := fun he => by
      rw [he, hidle] at hu
      cases hu
    dsimp only
    rw [hb.call, Function.update_of_ne hne]
    exact (h.refused u c hu).2
  · dsimp only
    rw [hb.cancelSchedules]
    exact (h.uncancelled c hc).1
  · intro u hu
    rcases agent_cases (Q := fun p => p.cancels = some c) hb.call hu with ⟨-, hu⟩ | ⟨-, hu⟩
    · exact hcancels c hc hu
    · exact (h.uncancelled c hc).2 u hu
  · have := h.runs c hc
    simp only [State.schedules, hb.eventSchedules, hb.cancelSchedules] at this ⊢
    exact this
  · rcases hr with hr | hr | hr | ⟨u, caller, hr⟩ | hr
    · exact .inl (hb.eventSchedules ▸ hr)
    · exact .inr (.inl hr)
    · exact .inr (.inr (.inl hr))
    · rcases agent_cases (Q := fun p => p = .resumeSchedule c caller) hb.call hr with
        ⟨-, hr⟩ | ⟨-, hr⟩
      · exact absurd hr (hp c caller)
      · exact .inr (.inr (.inr (.inl ⟨u, caller, hr⟩)))
    · exact .inr (.inr (.inr (.inr hr)))

omit [Fintype Thread] [DecidableEq Thread] [DecidableEq Co] in
theorem refuse_cases (chained : Co → Bool) {q : Call Co} (hnone : s.refused t = none) :
    (∃ c, q = .enqueueIsZero c ∧ s.event.isZero = true ∧ chained c = true ∧
      s.refuse chained t q = some c) ∨
    ((∀ c, q = .enqueueIsZero c → chained c = true → s.event.isZero = false) ∧
      s.refuse chained t q = none) := by
  cases q with
  | enqueueIsZero c =>
      rw [State.refuse]
      split_ifs with hc
      · exact .inl ⟨c, rfl, hc.1, hc.2, rfl⟩
      · refine .inr ⟨fun d hd hchained => ?_, hnone⟩
        cases hd
        by_contra hzero
        exact hc ⟨by simpa using hzero, hchained⟩
  | _ => exact .inr ⟨nofun, hnone⟩

omit [Fintype Thread] in
theorem call_of_refused {event : CountDownEvent.State Thread Co} {spurious : Bool} {d : Co}
    (hcall : s.event.call t = .enqueueIsZero d) (hzero : s.event.isZero = true)
    (hevent : CountDownEvent.callStep s.event t spurious (s.event.call t) = some event) :
    event.call t = .idle ∧ event.enqueues = s.event.enqueues := by
  rw [hcall] at hevent
  simp only [CountDownEvent.callStep, hzero, if_true, Option.some.injEq] at hevent
  subst hevent
  exact ⟨Function.update_self .., rfl⟩

omit [Fintype Thread] in
theorem eventSchedules_le {event : CountDownEvent.State Thread Co} {spurious : Bool}
    (hevent : CountDownEvent.callStep s.event t spurious (s.event.call t) = some event) (c : Co) :
    s.event.eventSchedules c ≤ event.eventSchedules c := by
  obtain ⟨p, hd⟩ := CountDownEvent.callStep_does hevent
  by_contra hn
  obtain ⟨caller, hcall⟩ := hd.eventSchedules c (by omega)
  rw [hcall] at hevent
  cases hevent
  dsimp only at hn
  rw [Function.update_self] at hn
  omega

/-- A step of a call of the event moves the task on from being attached to having been
enqueued, or to being refused. -/
theorem attaching_step {event : CountDownEvent.State Thread Co} {p : Call Co} {c : Co}
    {spurious : Bool} (hnone : s.refused t = none) (hc : chained c = true)
    (hevent : CountDownEvent.callStep s.event t spurious (s.event.call t) = some event)
    (hf : Flow s.event event t p) :
    event.enqueues c + attaching
      { s with event := event
               refused := Function.update s.refused t (s.refuse chained t (s.event.call t)) } c =
      s.event.enqueues c + attaching s c := by
  have hasks := sum_update_tally s.event.call (fun p => inHand p.asks c) t p
  have hrefused := sum_update_tally s.refused (fun hand => inHand hand c) t
    (s.refuse chained t (s.event.call t))
  rw [← hf.call] at hasks
  rw [hnone, CountDownEvent.inHand_none] at hrefused
  have hone : inHand (some c) c = 1 := if_pos rfl
  simp only [attaching] at hasks hrefused ⊢
  rcases refuse_cases chained (q := s.event.call t) hnone with
    ⟨d, hcall, hzero, -, hr⟩ | ⟨hno, hr⟩
  · obtain ⟨hidle, henqueues⟩ := call_of_refused hcall hzero hevent
    have hp : p = .idle := by
      rw [hf.call, Function.update_self] at hidle
      exact hidle
    rw [hcall, hp] at hasks
    rw [hr] at hrefused
    have h₁ : inHand (Call.enqueueIsZero d).asks c = inHand (some d) c := rfl
    have h₂ : inHand (Call.idle : Call Co).asks c = 0 := rfl
    rw [hr, henqueues]
    omega
  · rw [hr, CountDownEvent.inHand_none] at hrefused
    rw [hr]
    rcases hf.asks c with ha | ⟨hcall, hzero, -⟩
    · omega
    · rw [hno c hcall hc] at hzero
      cases hzero

theorem Chain.event {event : CountDownEvent.State Thread Co} {spurious : Bool}
    (h : Chain chained s) (hnone : s.refused t = none)
    (hevent : CountDownEvent.callStep s.event t spurious (s.event.call t) = some event)
    (hinv : Inv { s with
      event := event
      refused := Function.update s.refused t (s.refuse chained t (s.event.call t)) }) :
    Chain chained
      ({ s with
          event := event
          refused := Function.update s.refused t (s.refuse chained t (s.event.call t)) } :
        State Thread Co).observe := by
  obtain ⟨p, hf⟩ := CountDownEvent.callStep_flow hevent
  obtain ⟨p', hd⟩ := CountDownEvent.callStep_does hevent
  obtain rfl : p' = p := by
    have := congrFun (hd.call.symm.trans hf.call) t
    rwa [Function.update_self, Function.update_self] at this
  have huncancelled : ∀ c, chained c = true → event.cancelSchedules c = 0 := fun c hc => by
    by_contra hn
    have hcancels := hf.cancelSchedules c (by rw [(h.uncancelled c hc).1]; exact hn)
    exact (h.uncancelled c hc).2 t hcancels
  have hrefuses : ∀ u c, Function.update s.refused t (s.refuse chained t (s.event.call t)) u =
      some c → u = t ∧ s.event.call t = .enqueueIsZero c ∧ s.event.isZero = true ∧
        chained c = true ∨ u ≠ t ∧ s.refused u = some c := fun u c hu => by
    rcases agent_cases (Q := fun hand => hand = some c) rfl hu with ⟨he, hu⟩ | hu
    · rcases refuse_cases chained (q := s.event.call t) hnone with
        ⟨d, hcall, hzero, hd, hr⟩ | ⟨-, hr⟩
      · rw [hr] at hu
        cases hu
        exact .inl ⟨he, hcall, hzero, hd⟩
      · rw [hr] at hu
        cases hu
    · exact .inr hu
  refine h.observe hinv (fun _ hc => hc) (fun c hc => ?_) (fun u c hu => ?_)
    (fun c hc => ⟨huncancelled c hc, fun u hu => ?_⟩) (fun c hc => ?_) rfl fun c hc hr => ?_
  · have hstep := attaching_step hnone hc hevent hf
    have honce := h.once c hc
    dsimp only
    omega
  · rcases hrefuses u c hu with ⟨rfl, hcall, hzero, hc⟩ | ⟨hne, hu⟩
    · exact ⟨hc, (call_of_refused hcall hzero hevent).1⟩
    · refine ⟨(h.refused u c hu).1, ?_⟩
      dsimp only
      rw [hf.call, Function.update_of_ne hne]
      exact (h.refused u c hu).2
  · rcases agent_cases (Q := fun p => p.cancels = some c) hf.call hu with ⟨-, hu⟩ | ⟨-, hu⟩
    · rcases hf.cancels with hn | he
      · rw [hn] at hu
        cases hu
      · exact (h.uncancelled c hc).2 t (he ▸ hu)
    · exact (h.uncancelled c hc).2 u hu
  · have hruns := h.runs c hc
    have hle := eventSchedules_le hevent c
    have hzero := (h.uncancelled c hc).1
    simp only [State.schedules] at hruns ⊢
    omega
  · rcases hr with hr | hr | hr | ⟨u, caller, hr⟩ | ⟨u, hr⟩ | hr
    · by_cases hsame : event.eventSchedules c = s.event.eventSchedules c
      · exact h.reason c hc (.inl (hsame ▸ hr))
      · obtain ⟨caller, hcall⟩ := hd.eventSchedules c hsame
        exact h.reason c hc (.inr (.inr (.inr (.inl ⟨t, caller, hcall⟩))))
    · exact h.reason c hc (.inr (.inl hr))
    · exact h.reason c hc (.inr (.inr (.inl hr)))
    · rcases agent_cases (Q := fun p => p = .resumeSchedule c caller) hf.call hr with
        ⟨-, hr⟩ | ⟨-, hr⟩
      · obtain ⟨hcall, hcount⟩ := hd.seesZero c caller hr
        exact h.seen c (h.attached_of_resumes hc (by rw [hcall]; rfl)) (decide_eq_true hcount)
      · exact h.reason c hc (.inr (.inr (.inr (.inl ⟨u, caller, hr⟩))))
    · rcases hrefuses u c hr with ⟨rfl, hcall, hzero, -⟩ | ⟨-, hr⟩
      · exact h.seen c (h.attached_of_asks hc (by rw [hcall]; rfl)) hzero
      · exact h.reason c hc (.inr (.inr (.inr (.inr (.inl ⟨u, hr⟩)))))
    · exact h.reason c hc (.inr (.inr (.inr (.inr (.inr hr)))))

omit [DecidableEq Thread] in
theorem Chain.around (h : Chain chained s) (hinv : Inv s')
    (hcall : s'.event.call = s.event.call) (henqueues : s'.event.enqueues = s.event.enqueues)
    (hevent : s'.event.eventSchedules = s.event.eventSchedules)
    (hcancel : s'.event.cancelSchedules = s.event.cancelSchedules)
    (hrefused : s'.refused = s.refused) (halways : s'.alwaysSchedules = s.alwaysSchedules)
    (hattached : s'.attached = s.attached) (hsawZero : s'.sawZero = s.sawZero)
    (hruns : ∀ c, chained c = true → s'.runs c ≤ s'.schedules c)
    (hreleased : ∀ c, chained c = true →
      s'.destructorSchedules c ≠ 0 ∨ s'.destructor.held = some c → s.sawZero c = true) :
    Chain chained s'.observe := by
  refine h.observe hinv (fun c hc => hattached ▸ hc) (fun c hc => ?_) ?_ ?_ hruns hsawZero
    fun c hc hr => ?_
  · rw [attaching, hcall, henqueues, hrefused, halways, hattached]
    exact h.once c hc
  · rw [hrefused, hcall]
    exact h.refused
  · rw [hcancel, hcall]
    exact h.uncancelled
  · rw [Released, hevent, halways, hcall, hrefused] at hr
    rcases hr with hr | hr | hr | hr | hr | hr
    · exact h.reason c hc (.inl hr)
    · exact h.reason c hc (.inr (.inl hr))
    · exact hreleased c hc (.inl hr)
    · exact h.reason c hc (.inr (.inr (.inr (.inl hr))))
    · exact h.reason c hc (.inr (.inr (.inr (.inr (.inl hr)))))
    · exact hreleased c hc (.inr hr)

omit [DecidableEq Thread] in
theorem Chain.drained (h : Chain chained s) {c : Co} (hc : chained c = true)
    (hr : s.destructorSchedules c ≠ 0 ∨ s.destructor.held = some c) : s.sawZero c = true :=
  h.reason c hc (hr.elim (fun hr => .inr (.inr (.inl hr)))
    fun hr => .inr (.inr (.inr (.inr (.inr hr)))))

/-- A task that `enqueue` has refused is scheduled by `enqueueAlways`. -/
theorem Chain.always {c : Co} (h : Chain chained s) (hc : s.refused t = some c)
    (hinv : Inv { s with
      refused := Function.update s.refused t none
      alwaysSchedules := Function.update s.alwaysSchedules c (s.alwaysSchedules c + 1) }) :
    Chain chained
      ({ s with
          refused := Function.update s.refused t none
          alwaysSchedules := Function.update s.alwaysSchedules c (s.alwaysSchedules c + 1) } :
        State Thread Co).observe := by
  refine h.observe hinv (fun _ hc => hc) (fun d hd => ?_) (fun u d hu => ?_) h.uncancelled
    (fun d hd => ?_) rfl fun d hd hr => ?_
  · have honce := h.once d hd
    have hsum := sum_update_tally s.refused (fun hand => inHand hand d) t none
    rw [hc, CountDownEvent.inHand_none] at hsum
    simp only [attaching, CountDownEvent.update_succ] at honce ⊢
    omega
  · rcases agent_cases (Q := fun hand => hand = some d) rfl hu with ⟨-, hu⟩ | ⟨-, hu⟩
    · cases hu
    · exact h.refused u d hu
  · have := h.runs d hd
    simp only [State.schedules, CountDownEvent.update_succ] at this ⊢
    omega
  · have hold : ∀ {u : Thread}, s.refused u = some d → s.sawZero d = true := fun hu =>
      h.reason d hd (.inr (.inr (.inr (.inr (.inl ⟨_, hu⟩)))))
    rcases hr with hr | hr | hr | hr | ⟨u, hr⟩ | hr
    · exact h.reason d hd (.inl hr)
    · by_cases hdc : d = c
      · exact hold (hdc ▸ hc)
      · dsimp only at hr
        rw [Function.update_of_ne hdc] at hr
        exact h.reason d hd (.inr (.inl hr))
    · exact h.drained hd (.inl hr)
    · exact h.reason d hd (.inr (.inr (.inr (.inl hr))))
    · rcases agent_cases (Q := fun hand => hand = some d) rfl hr with ⟨-, hr⟩ | ⟨-, hr⟩
      · cases hr
      · exact hold hr
    · exact h.drained hd (.inr hr)

theorem Chain.callStep {spurious : Bool} (h : Chain chained s)
    (ha : callStep chained s t spurious = some s') : Chain chained s'.observe := by
  have hinv := h.inv.callStep ha
  rw [EventDestructor.callStep] at ha
  split at ha
  · rename_i c _ _ hc
    cases ha
    exact h.always hc hinv
  · cases ha
    exact h.around hinv rfl rfl rfl rfl rfl rfl rfl rfl h.runs fun c hc => h.drained hc
  · cases ha
    exact h.around hinv rfl rfl rfl rfl rfl rfl rfl rfl h.runs fun c hc => h.drained hc
  · cases ha
    exact h.around hinv rfl rfl rfl rfl rfl rfl rfl rfl h.runs fun c hc => h.drained hc
  · rename_i hnone _ _ _
    obtain ⟨event, hevent, rfl⟩ := Option.map_eq_some_iff.mp ha
    exact h.event hnone hevent hinv

omit [DecidableEq Thread] in
theorem Chain.destructorStep (h : Chain chained s)
    (hsignalled : s.destructor = .dequeue → ∀ c, s.event.waitQueue.head? = some c →
      chained c = true → s.sawZero c = true)
    (ha : destructorStep s s.destructor = some s') : Chain chained s'.observe := by
  have hinv := h.inv.destructorStep ha
  have hdrained : ∀ c, chained c = true →
      s.destructorSchedules c ≠ 0 ∨ s.destructor.held = some c → s.sawZero c = true :=
    fun c hc => h.drained hc
  cases hd : s.destructor with
  | idle | returned =>
      rw [hd] at ha
      cases ha
  | dequeue =>
      rw [hd] at ha
      cases hqueue : s.event.waitQueue with
      | nil =>
          have he := Option.some.inj ha
          rw [hqueue] at he
          subst he
          exact h.around hinv rfl rfl rfl rfl rfl rfl rfl rfl h.runs fun c hc hr =>
            hdrained c hc (hr.imp_right nofun)
      | cons coroutine rest =>
          have he := Option.some.inj ha
          rw [hqueue] at he
          subst he
          refine h.around hinv rfl rfl rfl rfl rfl rfl rfl rfl h.runs fun c hc hr => ?_
          rcases hr with hr | hr
          · exact hdrained c hc (.inl hr)
          · exact hsignalled hd c (by rw [hqueue]; exact hr) hc
  | listCount coroutine | setCancelled coroutine =>
      rw [hd] at ha hdrained
      cases ha
      exact h.around hinv rfl rfl rfl rfl rfl rfl rfl rfl h.runs hdrained
  | schedule coroutine =>
      rw [hd] at ha hdrained
      cases ha
      refine h.around hinv rfl rfl rfl rfl rfl rfl rfl rfl (fun c hc => ?_) fun c hc hr => ?_
      · have := h.runs c hc
        simp only [State.schedules, CountDownEvent.update_succ] at this ⊢
        omega
      · by_cases hcc : c = coroutine
        · exact hdrained c hc (.inr (by rw [hcc]; rfl))
        · refine hdrained c hc (.inl ?_)
          have hr := hr.resolve_right (by rintro ⟨⟩)
          dsimp only at hr
          rwa [Function.update_of_ne hcc] at hr
  | waitTillEmpty | scopeWaitTillEmpty =>
      rw [hd] at ha
      cases ha
      refine h.around hinv rfl rfl rfl rfl rfl rfl rfl rfl h.runs fun c hc hr =>
        hdrained c hc (hr.imp_right fun hr => ?_)
      dsimp only at hr
      split_ifs at hr <;> cases hr

theorem Chain.begin {a : CountDownEvent.Action Thread Co} {s₁ : State Thread Co}
    {cancelled attached : Co → Bool} (h : Chain chained s) (ha : s.begin a.thread a = some s₁)
    (hstart : ∀ u spurious, a ≠ .call u spurious)
    (hinv : Inv { s₁ with cancelled := cancelled, attached := attached })
    (hattached : ∀ c, s.attached c = true → attached c = true)
    (honce : ∀ c, chained c = true →
      inHand a.begins.asks c + (s.attached c).toNat = (attached c).toNat)
    (hcancels : ∀ c, chained c = true → a.begins.cancels ≠ some c) :
    Chain chained
      ({ s₁ with cancelled := cancelled, attached := attached } : State Thread Co).observe := by
  obtain ⟨hcan, ha⟩ := Option.ite_none_right_eq_some.mp ha
  obtain ⟨event, hevent, rfl⟩ := Option.map_eq_some_iff.mp ha
  exact h.begins (CountDownEvent.step_begins hevent hstart) hinv hattached hcan.2.1 honce hcancels
    fun c caller => by cases a <;> nofun

omit [Fintype Thread] in
theorem begin_attached {a : CountDownEvent.Action Thread Co} (ha : s.begin t a = some s') :
    s'.attached = s.attached := by
  obtain ⟨-, ha⟩ := Option.ite_none_right_eq_some.mp ha
  obtain ⟨event, -, rfl⟩ := Option.map_eq_some_iff.mp ha
  rfl

theorem Chain.beginPlain {a : CountDownEvent.Action Thread Co} {s₁ : State Thread Co}
    {cancelled : Co → Bool} (h : Chain chained s) (ha : s.begin a.thread a = some s₁)
    (hstart : ∀ u spurious, a ≠ .call u spurious) (hinv : Inv { s₁ with cancelled := cancelled })
    (hasks : ∀ c, chained c = true → a.begins.asks ≠ some c)
    (hcancels : ∀ c, chained c = true → a.begins.cancels ≠ some c) :
    Chain chained ({ s₁ with cancelled := cancelled } : State Thread Co).observe := by
  have hattached := begin_attached ha
  refine h.begin ha hstart hinv (fun c hc => ?_) (fun c hc => ?_) hcancels
  · rw [hattached]
    exact hc
  · rw [hattached, inHand, if_neg (hasks c hc), Nat.zero_add]

theorem Chain.act {a : Action Thread Co} (h : Chain chained s) (hg : Signalled chained s a)
    (ha : act chained s a = some s') : Chain chained s'.observe := by
  have hinv := h.inv.act ha
  cases a with
  | countDown t => exact h.beginPlain (a := .countDown t) ha nofun hinv nofun nofun
  | countUp t => exact h.beginPlain (a := .countUp t) ha nofun hinv nofun nofun
  | enqueue c t =>
      obtain ⟨hc, ha⟩ := Option.ite_none_right_eq_some.mp ha
      refine h.beginPlain (a := .enqueue c t) ha nofun hinv (fun d hd he => ?_) nofun
      cases he
      rw [hc] at hd
      cases hd
  | attach c t =>
      obtain ⟨⟨-, hc⟩, ha⟩ := Option.ite_none_right_eq_some.mp ha
      obtain ⟨s₁, hs₁, rfl⟩ := Option.map_eq_some_iff.mp ha
      rw [begin_attached hs₁] at hinv ⊢
      refine h.begin (a := .enqueue c t) hs₁ nofun hinv (fun d hd => ?_) (fun d hd => ?_) nofun
      · by_cases hdc : d = c
        · rw [hdc, Function.update_self]
        · rw [Function.update_of_ne hdc]
          exact hd
      · by_cases hdc : d = c
        · rw [hdc, Function.update_self, hc]
          exact if_pos rfl
        · rw [Function.update_of_ne hdc]
          have hne : (CountDownEvent.Action.enqueue c t).begins.asks ≠ some d := fun he =>
            hdc (Option.some.inj he).symm
          unfold inHand
          rw [if_neg hne, Nat.zero_add]
  | cancel c t =>
      obtain ⟨hc, ha⟩ := Option.ite_none_right_eq_some.mp ha
      obtain ⟨s₁, hs₁, rfl⟩ := Option.map_eq_some_iff.mp ha
      refine h.beginPlain (a := .cancel c t) hs₁ nofun hinv nofun fun d hd he => ?_
      cases he
      rw [hc] at hd
      cases hd
  | call t spurious => exact h.callStep ha
  | destroy =>
      obtain ⟨hd, ha⟩ := Option.ite_none_right_eq_some.mp ha
      obtain rfl := Option.some.inj ha
      exact h.around hinv rfl rfl rfl rfl rfl rfl rfl rfl h.runs fun c hc hr =>
        h.drained hc (hr.imp_right nofun)
  | destructor => exact h.destructorStep hg ha
  | run c =>
      obtain ⟨⟨-, hlt⟩, ha⟩ := Option.ite_none_right_eq_some.mp ha
      obtain rfl := Option.some.inj ha
      refine h.around hinv rfl rfl rfl rfl rfl rfl rfl rfl (fun d hd => ?_) fun c hc => h.drained hc
      have := h.runs d hd
      by_cases hdc : d = c
      · subst hdc
        dsimp only
        rw [Function.update_self]
        exact hlt
      · dsimp only
        rw [Function.update_of_ne hdc]
        exact this

theorem Chain.start (chained : Co → Bool) (initiallyZero : Bool) (maxCount : ℕ) :
    Chain chained (initial initiallyZero maxCount : State Thread Co) where
  inv := inv_of_reach chained (.start ⟨_, _, rfl⟩)
  once c _ := by
    have h₁ : ∑ t : Thread, inHand
        ((initial initiallyZero maxCount : State Thread Co).event.call t).asks c = 0 :=
      Finset.sum_eq_zero fun _ _ => rfl
    have h₂ : ∑ t : Thread, inHand
        ((initial initiallyZero maxCount : State Thread Co).refused t) c = 0 :=
      Finset.sum_eq_zero fun _ _ => rfl
    rw [attaching, h₁, h₂]
    rfl
  refused _ _ := nofun
  uncancelled _ _ := ⟨rfl, fun _ => nofun⟩
  seen _ := nofun
  attached _ := nofun
  runs _ _ := le_refl 0
  reason c _ hr := by
    rcases hr with hr | hr | hr | ⟨_, _, hr⟩ | ⟨_, hr⟩ | hr
    · exact absurd rfl hr
    · exact absurd rfl hr
    · exact absurd rfl hr
    all_goals cases hr

/-- Unless the destructor of the source takes it out of the wait list unsignalled, a chained
task runs at most once, and only when the count of the source was zero since it was
attached. -/
theorem chained_task_runs_once (hs : (system Thread chained).ReachWhile (Signalled chained) s)
    {c : Co} (hc : chained c = true) :
    s.runs c ≤ 1 ∧ (0 < s.runs c → s.sawZero c = true) := by
  have h : Chain chained s := by
    refine hs.invariant (I := Chain chained) ?_ fun s a s' h hg ha => ?_
    · rintro s ⟨initiallyZero, maxCount, rfl⟩
      exact Chain.start chained initiallyZero maxCount
    · obtain ⟨s₁, hact, rfl⟩ := Option.map_eq_some_iff.mp ha
      exact h.act hg hact
  have htally := h.inv.tally c
  have honce := h.once c hc
  have hruns := h.runs c hc
  have hcancel := (h.uncancelled c hc).1
  have hattached : (s.attached c).toNat ≤ 1 := by cases s.attached c <;> decide
  simp only [State.schedules, CountDownEvent.State.schedules] at htally hruns
  refine ⟨by omega, fun hpos => h.reason c hc ?_⟩
  by_contra hn
  simp only [Released, not_or, ne_eq, not_not] at hn
  omega

end Steps

instance [DecidableEq Thread] [DecidableEq Co] (chained : Co → Bool) (s : State Thread Co)
    (a : Action Thread Co) : Decidable (Signalled chained s a) :=
  match a with
  | .destructor =>
      match hq : s.event.waitQueue.head? with
      | none => .isTrue fun _ c hc => by rw [hq] at hc; cases hc
      | some c => decidable_of_iff
          (s.destructor = .dequeue → chained c = true → s.sawZero c = true)
          ⟨fun h hd d hc => by rw [hq] at hc; cases hc; exact h hd, fun h hd => h hd c hq⟩
  | .countDown _ | .countUp _ | .enqueue _ _ | .attach _ _ | .cancel _ _ | .call _ _ | .destroy
  | .run _ => inferInstanceAs (Decidable True)

theorem chained_task_runs_once_signalled : ∃ s : State (Fin 1) Unit,
    s.destructor = .returned ∧ s.runs () = 1 ∧ s.sawZero () = true := by
  obtain ⟨s, hs, hr, hruns⟩ := StepSystem.Reach.exists_of_exec
    (M := (system (Fin 1) fun _ : Unit => true).restrict (Signalled fun _ => true))
    (P := fun s => s.destructor = .returned ∧ s.runs () = 1) (.start ⟨false, 1, rfl⟩)
    (.attach () 0 :: List.replicate 6 (.call 0 false) ++ .countDown 0 ::
      List.replicate 10 (.call 0 false) ++ .destroy :: List.replicate 3 .destructor ++ [.run ()])
    (by decide)
  have hrun := (chained_task_runs_once hs.reachWhile (c := ()) rfl).2
  exact ⟨s, hr, hruns, hrun (by rw [hruns]; exact Nat.one_pos)⟩

/-- The source is destroyed and was never zero, and the target is counted down. -/
theorem chained_task_runs_unsignalled :
    ¬ ∀ s : State (Fin 1) Unit, (system (Fin 1) fun _ : Unit => true).Reach s →
      s.runs () ≤ 1 ∧ (0 < s.runs () → s.sawZero () = true) := by
  intro h
  obtain ⟨s, hs, hruns, hsaw⟩ := StepSystem.Reach.exists_of_exec
    (M := system (Fin 1) fun _ : Unit => true)
    (P := fun s => s.runs () = 1 ∧ s.sawZero () = false) (.start ⟨false, 1, rfl⟩)
    (.attach () 0 :: List.replicate 6 (.call 0 false) ++ .destroy ::
      List.replicate 7 .destructor ++ [.run ()]) (by decide)
  have := (h s hs).2 (by rw [hruns]; exact Nat.one_pos)
  rw [hsaw] at this
  cases this

end LevelzAsync.EventDestructor
