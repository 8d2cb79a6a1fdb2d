import LevelzAsync.CountDownEvent
import LevelzAsync.Custody

/-!
# The waiters of the counting event

A count of zero and a wait list that is not empty go together only while some
call still has to look at the list again. A waiting coroutine is in the list or
in one hand of one thread: a thread inside `remove` may have the coroutine that
it removed in one hand and a coroutine of its `resumeWaiting` in the other.
-/

namespace LevelzAsync.CountDownEvent

variable {Thread Co : Type*}

inductive Hand
  | resume
  | remove
  deriving DecidableEq

def Caller.held : Caller Co → Option Co
  | .remove c true => some c
  | _ => none

namespace Call

def inFlight : Call Co → Bool
  | idle | cancelSchedule _ => false
  | _ => true

/-- The call looks at the wait list, or finds a count that is not zero, before
it returns. -/
def responsible : Call Co → Bool
  | enqueueListCount | enqueueRecheck | resumeDequeue _ | resumeListCount _ _ | resumeIsZero _ _
  | resumeEnqueue _ _ | resumeListCountUp _ | resumeSchedule _ _ | resumeRecheck _
  | removeCount _ | removeDequeue _ _ | removeListCount _ _ _ | removeEnqueue _ _ _
  | removeListCountUp _ _ | removeRecheck _ _ => true
  | _ => false

/-- The coroutine whose node `enqueue` is about to put into the wait list. -/
def asks : Call Co → Option Co
  | enqueueIsZero c | enqueuePush c => some c
  | _ => none

def resumes : Call Co → Option Co
  | resumeListCount node _ | resumeIsZero node _ | resumeEnqueue node _
  | resumeSchedule node _ => some node
  | _ => none

def removes : Call Co → Option Co
  | resumeDequeue caller | resumeListCount _ caller | resumeIsZero _ caller
  | resumeEnqueue _ caller | resumeListCountUp caller | resumeSchedule _ caller
  | resumeRecheck caller => caller.held
  | removeListCount _ node _ | removeEnqueue _ node _ => some node
  | removeRecheck c true | cancelSchedule c => some c
  | _ => none

def held (p : Call Co) : Hand → Option Co
  | .resume => p.resumes
  | .remove => p.removes

theorem responsible_inFlight {p : Call Co} (h : p.responsible = true) : p.inFlight = true := by
  cases p <;> simp_all [responsible, inFlight]

end Call

namespace State

def holds (s : State Thread Co) (h : Thread × Hand) : Option Co := (s.call h.1).held h.2

def schedules (s : State Thread Co) (c : Co) : ℕ := s.eventSchedules c + s.cancelSchedules c

theorem holds_eq (s : State Thread Co) : s.holds = inHands Call.held s.call := rfl

end State

/-- Nobody is forgotten: some call is going to look at the list again. -/
def Watched (s : State Thread Co) : Prop :=
  s.count = 0 → s.waitQueue ≠ [] → ∃ t, (s.call t).responsible = true

structure Waits (s : State Thread Co) : Prop where
  ledger : Ledger (fun _ : Unit => s.waitQueue) s.holds s.enqueues s.schedules
  awaits : ∀ c, s.schedules c < s.enqueues c → s.awaits c = true
  asks : ∀ t c, (s.call t).asks = some c → s.awaits c = true ∧ s.enqueues c = s.schedules c
  unique : ∀ t u c, (s.call t).asks = some c → (s.call u).asks = some c → t = u

section Steps

variable [DecidableEq Thread] {s s' : State Thread Co} {t : Thread} {c : Co} {p q : Call Co}
  {rest : List Co} {hand : Hand}

/-- The thread goes on and nobody begins or ends to wait. -/
structure Goes (s s' : State Thread Co) (t : Thread) (p : Call Co) : Prop where
  call : s'.call = Function.update s.call t p
  awaits : s'.awaits = s.awaits
  enqueues : s'.enqueues = s.enqueues
  eventSchedules : s'.eventSchedules = s.eventSchedules
  cancelSchedules : s'.cancelSchedules = s.cancelSchedules

theorem asks_cases (hcall : s'.call = Function.update s.call t p) {u : Thread}
    (h : (s'.call u).asks = some c) :
    u = t ∧ p.asks = some c ∨ u ≠ t ∧ (s.call u).asks = some c :=
  agent_cases (Q := fun p => p.asks = some c) hcall h

/-- Who asks to wait does not change, up to one thread that may be done with it. -/
theorem asks_sub (hcall : s'.call = Function.update s.call t p)
    (hasks : p.asks = none ∨ p.asks = (s.call t).asks) {u : Thread}
    (h : (s'.call u).asks = some c) : (s.call u).asks = some c := by
  rcases asks_cases hcall h with ⟨rfl, h⟩ | ⟨_, h⟩
  · rcases hasks with hn | hs
    · rw [hn] at h
      cases h
    · exact hs ▸ h
  · exact h

theorem schedules_eq (hg : Goes s s' t p) : s'.schedules = s.schedules := by
  funext c
  simp [State.schedules, hg.eventSchedules, hg.cancelSchedules]

/-- A ledger with the same counts keeps the rest of the invariant. -/
theorem Waits.of_ledger (hw : Waits s) (hg : Goes s s' t p)
    (hasks : p.asks = none ∨ p.asks = (s.call t).asks)
    (hl : Ledger (fun _ : Unit => s'.waitQueue) s'.holds s.enqueues s.schedules) : Waits s' where
  ledger := by rw [hg.enqueues, schedules_eq hg]; exact hl
  awaits d hd := by
    rw [hg.enqueues, schedules_eq hg] at hd
    rw [hg.awaits]
    exact hw.awaits d hd
  asks u d hd := by
    rw [hg.enqueues, schedules_eq hg, hg.awaits]
    exact hw.asks u d (asks_sub hg.call hasks hd)
  unique u v d hu hv := hw.unique u v d (asks_sub hg.call hasks hu) (asks_sub hg.call hasks hv)

theorem Waits.go (hw : Waits s) (hg : Goes s s' t p) (hqueue : s'.waitQueue = s.waitQueue)
    (hheld : ∀ x, p.held x = (s.call t).held x)
    (hasks : p.asks = none ∨ p.asks = (s.call t).asks) : Waits s' := by
  refine hw.of_ledger hg hasks ?_
  rw [s'.holds_eq, hg.call]
  exact hw.ledger.agentStay (fun _ => hqueue) hheld

theorem Waits.take (hw : Waits s) (hg : Goes s s' t p) (hand : Hand)
    (hqueue : s.waitQueue = c :: rest) (hqueue' : s'.waitQueue = rest)
    (hnone : (s.call t).held hand = none) (hsome : p.held hand = some c)
    (hother : ∀ x, x ≠ hand → p.held x = (s.call t).held x) (hasks : p.asks = none) :
    Waits s' := by
  refine hw.of_ledger hg (.inl hasks) ?_
  rw [s'.holds_eq, hg.call]
  exact hw.ledger.agentTake (k := ()) hqueue hqueue' nofun hnone hsome hother

theorem Waits.putBack (hw : Waits s) (hg : Goes s s' t p) (hand : Hand)
    (hsome : (s.call t).held hand = some c) (hqueue' : s'.waitQueue = s.waitQueue ++ [c])
    (hnone : p.held hand = none) (hother : ∀ x, x ≠ hand → p.held x = (s.call t).held x)
    (hasks : p.asks = none) : Waits s' := by
  refine hw.of_ledger hg (.inl hasks) ?_
  rw [s'.holds_eq, hg.call]
  exact hw.ledger.agentPutBack (k := ()) hsome hqueue' nofun hnone hother

theorem Waits.push [DecidableEq Co] (hw : Waits s) (hcall : s'.call = Function.update s.call t p)
    (hasked : (s.call t).asks = some c) (hqueue' : s'.waitQueue = s.waitQueue ++ [c])
    (hheld : ∀ x, p.held x = (s.call t).held x) (hasks : p.asks = none)
    (hawaits : s'.awaits = s.awaits)
    (henqueues : s'.enqueues = Function.update s.enqueues c (s.enqueues c + 1))
    (hschedules : s'.schedules = s.schedules) : Waits s' := by
  obtain ⟨hc, he⟩ := hw.asks t c hasked
  have hself : s'.enqueues c = s.enqueues c + 1 := by rw [henqueues, Function.update_self]
  have hother : ∀ d, d ≠ c → s'.enqueues d = s.enqueues d := fun d hd => by
    rw [henqueues, Function.update_of_ne hd]
  refine ⟨?_, fun d hd => ?_, fun u d hd => ?_, fun u v d hu hv => ?_⟩
  · rw [s'.holds_eq, hcall, hschedules]
    exact hw.ledger.agentEnter (k := ()) he hqueue' nofun hheld hself hother
  · rw [hawaits]
    by_cases hdc : d = c
    · exact hdc ▸ hc
    · rw [hother d hdc, hschedules] at hd
      exact hw.awaits d hd
  · have hd' := asks_sub hcall (.inl hasks) hd
    have hdc : d ≠ c := by
      intro hdc
      have hut := hw.unique u t c (hdc ▸ hd') hasked
      rw [hcall, hut, Function.update_self, hasks] at hd
      cases hd
    rw [hother d hdc, hschedules, hawaits]
    exact hw.asks u d hd'
  · exact hw.unique u v d (asks_sub hcall (.inl hasks) hu) (asks_sub hcall (.inl hasks) hv)

theorem Waits.schedule [DecidableEq Co] (hw : Waits s)
    (hcall : s'.call = Function.update s.call t p) (hand : Hand)
    (hsome : (s.call t).held hand = some c) (hqueue' : s'.waitQueue = s.waitQueue)
    (hnone : p.held hand = none) (hother : ∀ x, x ≠ hand → p.held x = (s.call t).held x)
    (hasks : p.asks = none) (hawaits : s'.awaits = Function.update s.awaits c false)
    (henqueues : s'.enqueues = s.enqueues) (hself : s'.schedules c = s.schedules c + 1)
    (hrest : ∀ d, d ≠ c → s'.schedules d = s.schedules d) : Waits s' := by
  have hin : s.enqueues c = s.schedules c + 1 := hw.ledger.inside c ⟨.inr (t, hand), hsome⟩
  refine ⟨?_, fun d hd => ?_, fun u d hd => ?_, fun u v d hu hv => ?_⟩
  · rw [s'.holds_eq, hcall, henqueues]
    exact hw.ledger.agentRelease hsome (fun _ => hqueue') hnone hother hself hrest
  · rw [henqueues] at hd
    have hdc : d ≠ c := by
      rintro rfl
      omega
    rw [hrest d hdc] at hd
    rw [hawaits, Function.update_of_ne hdc]
    exact hw.awaits d hd
  · have hd' := hw.asks u d (asks_sub hcall (.inl hasks) hd)
    have hdc : d ≠ c := by
      rintro rfl
      omega
    rw [henqueues, hrest d hdc, hawaits, Function.update_of_ne hdc]
    exact hd'
  · exact hw.unique u v d (asks_sub hcall (.inl hasks) hu) (asks_sub hcall (.inl hasks) hv)

theorem Waits.ask [DecidableEq Co] (hw : Waits s) (hcall : s'.call = Function.update s.call t p)
    (hfree : s.awaits c = false) (hqueue' : s'.waitQueue = s.waitQueue)
    (hheld : ∀ x, p.held x = (s.call t).held x) (hasks : p.asks = some c)
    (hawaits : s'.awaits = Function.update s.awaits c true) (henqueues : s'.enqueues = s.enqueues)
    (hschedules : s'.schedules = s.schedules) : Waits s' := by
  have hnot : ∀ u, (s.call u).asks ≠ some c := fun u hu => by
    rw [(hw.asks u c hu).1] at hfree
    cases hfree
  have heq : s.enqueues c = s.schedules c := by
    have := hw.ledger.left_le c
    by_contra hne
    rw [hw.awaits c (by omega)] at hfree
    cases hfree
  have hmono : ∀ d, s.awaits d = true → s'.awaits d = true := fun d hd => by
    rw [hawaits, Function.update_apply]
    split
    · rfl
    · exact hd
  refine ⟨?_, fun d hd => ?_, fun u d hd => ?_, fun u v d hu hv => ?_⟩
  · rw [s'.holds_eq, hcall, henqueues, hschedules]
    exact hw.ledger.agentStay (fun _ => hqueue') hheld
  · rw [henqueues, hschedules] at hd
    exact hmono d (hw.awaits d hd)
  · rw [henqueues, hschedules]
    rcases asks_cases hcall hd with ⟨_, hd⟩ | ⟨_, hd⟩
    · obtain rfl : c = d := Option.some.inj (hasks.symm.trans hd)
      exact ⟨by rw [hawaits, Function.update_self], heq⟩
    · exact ⟨hmono d (hw.asks u d hd).1, (hw.asks u d hd).2⟩
  · rcases asks_cases hcall hu with ⟨rfl, hu⟩ | ⟨_, hu⟩ <;>
      rcases asks_cases hcall hv with ⟨rfl, hv⟩ | ⟨_, hv⟩
    · rfl
    · exact absurd (Option.some.inj (hasks.symm.trans hu) ▸ hv) (hnot v)
    · exact absurd (Option.some.inj (hasks.symm.trans hv) ▸ hu) (hnot u)
    · exact hw.unique u v d hu hv

theorem Waits.refuse [DecidableEq Co] (hw : Waits s)
    (hcall : s'.call = Function.update s.call t p) (hasked : (s.call t).asks = some c)
    (hqueue' : s'.waitQueue = s.waitQueue) (hheld : ∀ x, p.held x = (s.call t).held x)
    (hasks : p.asks = none) (hawaits : s'.awaits = Function.update s.awaits c false)
    (henqueues : s'.enqueues = s.enqueues) (hschedules : s'.schedules = s.schedules) :
    Waits s' := by
  obtain ⟨hc, he⟩ := hw.asks t c hasked
  have hne : ∀ u d, (s'.call u).asks = some d → d ≠ c := by
    rintro u d hd rfl
    have hut := hw.unique u t d (asks_sub hcall (.inl hasks) hd) hasked
    rw [hcall, hut, Function.update_self, hasks] at hd
    cases hd
  refine ⟨?_, fun d hd => ?_, fun u d hd => ?_, fun u v d hu hv => ?_⟩
  · rw [s'.holds_eq, hcall, henqueues, hschedules]
    exact hw.ledger.agentStay (fun _ => hqueue') hheld
  · rw [henqueues, hschedules] at hd
    have hdc : d ≠ c := by
      rintro rfl
      omega
    rw [hawaits, Function.update_of_ne hdc]
    exact hw.awaits d hd
  · rw [henqueues, hschedules, hawaits, Function.update_of_ne (hne u d hd)]
    exact hw.asks u d (asks_sub hcall (.inl hasks) hd)
  · exact hw.unique u v d (asks_sub hcall (.inl hasks) hu) (asks_sub hcall (.inl hasks) hv)

end Steps

section Runs

variable [DecidableEq Thread] {s s' : State Thread Co} {t : Thread} {c : Co} {p q : Call Co}
  {rest : List Co} {caller : Caller Co}

theorem goes (p : Call Co) : Goes s (s.go t p) t p := ⟨rfl, rfl, rfl, rfl, rfl⟩

omit [DecidableEq Thread] in
theorem held_of_ne_resume (h : p.removes = q.removes) :
    ∀ x, x ≠ Hand.resume → p.held x = q.held x := by
  intro x hx
  cases x with
  | resume => exact absurd rfl hx
  | remove => exact h

omit [DecidableEq Thread] in
theorem held_of_ne_remove (h : p.resumes = q.resumes) :
    ∀ x, x ≠ Hand.remove → p.held x = q.held x := by
  intro x hx
  cases x with
  | resume => exact h
  | remove => exact absurd rfl hx

theorem Waits.goFrom (hw : Waits s) (hp : s.call t = q) (hg : Goes s s' t p)
    (hqueue : s'.waitQueue = s.waitQueue) (hresumes : p.resumes = q.resumes)
    (hremoves : p.removes = q.removes) (hasks : p.asks = none ∨ p.asks = q.asks) :
    Waits s' := by
  subst hp
  refine hw.go hg hqueue (fun x => ?_) hasks
  cases x with
  | resume => exact hresumes
  | remove => exact hremoves

theorem Waits.returnResume (hw : Waits s) (hp : s.call t = q) (hresumes : q.resumes = none)
    (hremoves : q.removes = caller.held) : Waits (s.returnResume t caller) := by
  have hidle : ∀ {p : Call Co}, p.resumes = none → p.removes = caller.held → p.asks = none →
      Waits (s.go t p) := fun {p} h₁ h₂ h₃ =>
    hw.goFrom hp (goes p) rfl (h₁.trans hresumes.symm) (h₂.trans hremoves.symm) (.inl h₃)
  cases caller with
  | countDown | enqueue => exact hidle rfl rfl rfl
  | remove c removed =>
      cases removed with
      | false => exact hidle rfl rfl rfl
      | true => exact hidle rfl rfl rfl

theorem Waits.resumeDequeue (hw : Waits s) (hp : s.call t = .resumeDequeue caller)
    (hqueue : s.waitQueue = c :: rest) :
    Waits { s.go t (.resumeListCount c caller) with waitQueue := rest } :=
  hw.take ⟨rfl, rfl, rfl, rfl, rfl⟩ .resume hqueue rfl (by rw [hp]; rfl) rfl
    (hp ▸ held_of_ne_resume rfl) rfl

theorem Waits.removeDequeue (hw : Waits s) {left : ℕ} {d : Co}
    (hp : s.call t = .removeDequeue d (left + 1)) (hqueue : s.waitQueue = c :: rest) :
    Waits { s.go t (.removeListCount d c left) with waitQueue := rest } :=
  hw.take ⟨rfl, rfl, rfl, rfl, rfl⟩ .remove hqueue rfl (by rw [hp]; rfl) rfl
    (hp ▸ held_of_ne_remove rfl) rfl

variable [DecidableEq Co]

theorem Waits.callStep (hw : Waits s) {spurious : Bool}
    (h : callStep s t spurious (s.call t) = some s') : Waits s' := by
  cases hp : s.call t with
  | idle =>
      rw [hp] at h
      cases h
  | countDownLoad | countUpLoad | enqueueListCount | resumeListCount | resumeListCountUp
  | removeCount | removeListCountUp =>
      rw [hp] at h
      cases h
      exact hw.goFrom hp ⟨rfl, rfl, rfl, rfl, rfl⟩ rfl rfl rfl (.inl rfl)
  | countDownCas prevCount =>
      rw [hp] at h
      cases h
      split_ifs <;> exact hw.goFrom hp ⟨rfl, rfl, rfl, rfl, rfl⟩ rfl rfl rfl (.inl rfl)
  | countUpCas prevCount =>
      rw [hp] at h
      cases h
      split_ifs <;> exact hw.goFrom hp ⟨rfl, rfl, rfl, rfl, rfl⟩ rfl rfl rfl (.inl rfl)
  | enqueueIsZero c =>
      rw [hp] at h
      cases h
      split_ifs
      · refine hw.refuse rfl (by rw [hp]; rfl) rfl (fun x => ?_) rfl rfl rfl rfl
        cases x <;> rw [hp] <;> rfl
      · exact hw.goFrom hp (goes _) rfl rfl rfl (.inr rfl)
  | enqueuePush c =>
      rw [hp] at h
      cases h
      refine hw.push rfl (by rw [hp]; rfl) rfl (fun x => ?_) rfl rfl rfl rfl
      cases x <;> rw [hp] <;> rfl
  | enqueueRecheck =>
      rw [hp] at h
      cases h
      split_ifs <;> exact hw.goFrom hp (goes _) rfl rfl rfl (.inl rfl)
  | resumeDequeue caller =>
      rw [hp] at h
      cases hqueue : s.waitQueue with
      | nil =>
          simp only [CountDownEvent.callStep, hqueue] at h
          cases h
          exact hw.returnResume hp rfl rfl
      | cons node rest =>
          simp only [CountDownEvent.callStep, hqueue] at h
          cases h
          exact hw.resumeDequeue hp hqueue
  | resumeIsZero node caller =>
      rw [hp] at h
      cases h
      split_ifs <;> exact hw.goFrom hp (goes _) rfl rfl rfl (.inl rfl)
  | resumeEnqueue node caller =>
      rw [hp] at h
      cases h
      exact hw.putBack ⟨rfl, rfl, rfl, rfl, rfl⟩ .resume (by rw [hp]; rfl) rfl rfl
        (hp ▸ held_of_ne_resume rfl) rfl
  | resumeSchedule node caller =>
      rw [hp] at h
      cases h
      refine hw.schedule rfl .resume (by rw [hp]; rfl) rfl rfl (hp ▸ held_of_ne_resume rfl) rfl rfl
        rfl ?_ fun d hd => ?_
      · simp only [State.schedules, Function.update_self]
        exact Nat.succ_add ..
      · simp only [State.schedules, Function.update_of_ne hd]
        rfl
  | resumeRecheck caller =>
      rw [hp] at h
      cases h
      split_ifs
      · exact hw.goFrom hp (goes _) rfl rfl rfl (.inl rfl)
      · exact hw.returnResume hp rfl rfl
  | removeIsZero c =>
      rw [hp] at h
      cases h
      split_ifs <;> exact hw.goFrom hp (goes _) rfl rfl rfl (.inl rfl)
  | removeDequeue c left =>
      rw [hp] at h
      simp only [CountDownEvent.callStep] at h
      split at h
      next hqueue =>
        cases h
        exact hw.removeDequeue hp hqueue
      next =>
        cases h
        exact hw.goFrom hp (goes _) rfl rfl rfl (.inl rfl)
  | removeListCount c node left =>
      rw [hp] at h
      cases h
      split_ifs with hn
      · subst hn
        exact hw.goFrom hp ⟨rfl, rfl, rfl, rfl, rfl⟩ rfl rfl rfl (.inl rfl)
      · exact hw.goFrom hp ⟨rfl, rfl, rfl, rfl, rfl⟩ rfl rfl rfl (.inl rfl)
  | removeEnqueue c node left =>
      rw [hp] at h
      cases h
      exact hw.putBack ⟨rfl, rfl, rfl, rfl, rfl⟩ .remove (by rw [hp]; rfl) rfl rfl
        (hp ▸ held_of_ne_remove rfl) rfl
  | removeRecheck c removed =>
      rw [hp] at h
      cases h
      cases removed <;> split_ifs <;> exact hw.goFrom hp (goes _) rfl rfl rfl (.inl rfl)
  | cancelSchedule c =>
      rw [hp] at h
      cases h
      refine hw.schedule rfl .remove (by rw [hp]; rfl) rfl rfl (hp ▸ held_of_ne_remove rfl) rfl rfl
        rfl ?_ fun d hd => ?_
      · simp only [State.schedules, Function.update_self]
        rfl
      · simp only [State.schedules, Function.update_of_ne hd]
        rfl

theorem Waits.step (hw : Waits s) {a : Action Thread Co} (h : step s a = some s') : Waits s' := by
  have hidle : ∀ {t : Thread} {p : Call Co}, s.call t = .idle → p.resumes = none →
      p.removes = none → p.asks = none → Waits (s.go t p) :=
    fun hp h₁ h₂ h₃ => hw.goFrom hp (goes _) rfl h₁ h₂ (.inl h₃)
  cases a with
  | countDown t =>
      obtain ⟨hp, he⟩ := Option.ite_none_right_eq_some.mp h
      cases he
      exact hidle hp rfl rfl rfl
  | countUp t =>
      obtain ⟨hp, he⟩ := Option.ite_none_right_eq_some.mp h
      cases he
      exact hidle hp rfl rfl rfl
  | enqueue c t =>
      obtain ⟨⟨hp, hfree⟩, he⟩ := Option.ite_none_right_eq_some.mp h
      cases he
      refine hw.ask rfl hfree rfl (fun x => ?_) rfl rfl rfl rfl
      cases x <;> rw [hp] <;> rfl
  | cancel c t =>
      obtain ⟨hp, he⟩ := Option.ite_none_right_eq_some.mp h
      cases he
      exact hidle hp rfl rfl rfl
  | call t spurious => exact hw.callStep h

theorem waits_of_reach (hs : (system Thread Co).Reach s) : Waits s := by
  refine hs.invariant (fun s h => ?_) fun s a s' hw ha => hw.step ha
  obtain ⟨_, _, rfl⟩ := h
  refine ⟨.of_empty (fun _ => rfl) (fun ⟨_, x⟩ => ?_) fun _ => rfl, fun c hc => ?_, nofun, nofun⟩
  · cases x <;> rfl
  · exact absurd hc (lt_irrefl 0)

end Runs

end LevelzAsync.CountDownEvent
