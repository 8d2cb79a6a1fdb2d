import LevelzAsync.AsyncValue
import LevelzAsync.CountDownEventReturns

/-!
# An `AsyncTask` gives its result to everyone who awaits it

Only the promise counts the event down, and it has stored the result before. The count
stays at zero then, so a coroutine that is told to go on finds the result, unless it goes on
because it was cancelled, and then `onResume` throws.
-/

namespace LevelzAsync.CountDownEvent

variable {Thread Co : Type*} [DecidableEq Thread] [DecidableEq Co] {s s' : State Thread Co}
  {t : Thread}

/-- A call that is not about to change the count leaves it alone. -/
theorem callStep_quiet {spurious : Bool} (hchanges : (s.call t).changes = 0)
    (h : callStep s t spurious (s.call t) = some s') :
    s'.count = s.count ∧ (s'.call t).changes = 0 := by
  have hfalse : callStep s t false (s.call t) = some s' := by
    cases hp : s.call t with rw [hp] at h hchanges
    | countDownLoad | countDownCas | countUpLoad | countUpCas => cases hchanges
    | _ => exact h
  obtain ⟨p, hn⟩ := callStep_nearer hfalse
  have hcall : s'.call t = p := by rw [hn.call, Function.update_self]
  rcases hn.nearer with ⟨hlt, -⟩ | ⟨hcount, heq, -⟩
  · omega
  · exact ⟨hcount, hcall ▸ heq.trans hchanges⟩

/-- A thread comes to ask for a coroutine only by beginning an `enqueue`. -/
theorem callStep_asks {spurious : Bool} (hasks : (s.call t).asks = none)
    (h : callStep s t spurious (s.call t) = some s') : (s'.call t).asks = none := by
  obtain ⟨p, hf⟩ := callStep_flow h
  obtain ⟨q, hd⟩ := callStep_does h
  have hcall : s'.call t = p := by rw [hf.call, Function.update_self]
  rw [hcall]
  by_contra hne
  obtain ⟨c, hc⟩ := Option.ne_none_iff_exists'.mp hne
  rcases hf.asks c with he | ⟨hp, -⟩
  · rw [hc, hasks, inHand, if_pos rfl, inHand_none] at he
    have hpush := hd.enqueues c (by omega)
    rw [hpush] at hasks
    cases hasks
  · rw [hp] at hasks
    cases hasks

/-- The steps of a `countDown` up to the one that makes the count zero. -/
theorem countDown_step {spurious : Bool} (hone : s.count = 1)
    (hcall : s.call t = .countDownLoad ∨ s.call t = .countDownCas 1)
    (h : callStep s t spurious (s.call t) = some s') :
    s' = s.go t (.countDownCas 1) ∨
      s' = { s.go t (.resumeDequeue .countDown) with count := 0 } := by
  rcases hcall with hp | hp
  · rw [hp] at h
    have he := (Option.some.inj h).symm
    rw [hone] at he
    exact .inl he
  · rw [hp] at h
    have he := (Option.some.inj h).symm
    rw [if_neg one_ne_zero] at he
    by_cases hfails : spurious = true ∨ s.count ≠ 1
    · rw [if_pos hfails, hone] at he
      exact .inl he
    · rw [if_neg hfails] at he
      exact .inr he

end LevelzAsync.CountDownEvent

namespace LevelzAsync.AsyncValue

open SyncTaskGet (Variant)
open CountDownEvent (Call)

variable {Thread Co E V : Type*}

/-- What is known of the count and of the result. -/
def ProducerPc.Fits (count : ℕ) (value : Variant E V) (outcome : Option (Except E V)) :
    ProducerPc Thread E V → Prop
  | .body => count = 1 ∧ outcome = none
  | .store r => count = 1 ∧ outcome = some r
  | .setReturned | .assertCount | .countDown =>
      count = 1 ∧ ∃ r, outcome = some r ∧ value = .ofOutcome r
  | .signalling _ => count ≤ 1 ∧ ∃ r, outcome = some r ∧ value = .ofOutcome r
  | .assertCountAfter | .signalled => count = 0 ∧ ∃ r, outcome = some r ∧ value = .ofOutcome r

/-- What is known at the points of an await; the event is signalled if `zero`. -/
def AwaitPc.Fits (zero : Prop) (cancelled awaits : Bool) (value : Variant E V)
    (outcome : Option (Except E V)) : AwaitPc E V → Prop
  | .refused _ | .checkException => zero
  | .parked => awaits = true ∨ zero ∨ cancelled = true
  | .scheduled | .onResume => zero ∨ cancelled = true
  | .getValue => zero ∧ ∃ v, value = .value v
  | .got r => outcome = some r
  | .cancellationError => cancelled = true
  | .badVariantAccess => False
  | _ => True

def AwaitPc.isEnqueueing : AwaitPc E V → Bool
  | .enqueueing _ => true
  | _ => false

variable [DecidableEq Thread] [DecidableEq Co]

structure EventInv (event : CountDownEvent.State Thread Co) (producer : ProducerPc Thread E V)
    (cancelled : Co → Bool) : Prop where
  reach : (CountDownEvent.system Thread Co).Reach event
  signalling : ∀ t, producer.signals t = true → event.count = 0 ∨ (event.call t).changes = 1
  changes : ∀ t, (event.call t).changes ≠ 0 → producer.signals t = true ∧ event.count = 1 ∧
    (event.call t = .countDownLoad ∨ event.call t = .countDownCas 1)
  sees : ∀ t c caller, event.call t = .resumeSchedule c caller → event.count = 0
  cancels : ∀ t c, (event.call t).cancels = some c → cancelled c = true

structure Inv (s : State Thread Co E V) : Prop where
  event : EventInv s.event s.producer s.cancelled
  producer : s.producer.Fits s.event.count s.value s.outcome
  enqueueing : ∀ c, (s.awaiter c).isEnqueueing = true ↔ ∃ t, (s.event.call t).asks = some c
  awaits : ∀ c, s.event.awaits c = true → (s.awaiter c).isEnqueueing = true ∨
    s.awaiter c = .parked
  awaiter : ∀ c, (s.awaiter c).Fits (s.event.count = 0) (s.cancelled c) (s.event.awaits c)
    s.value s.outcome
  noAssertion : s.assertFailed = false

section Events

variable {event event' : CountDownEvent.State Thread Co} {producer : ProducerPc Thread E V}
  {cancelled cancelled' : Co → Bool} {t u : Thread}

omit [DecidableEq Co] in
theorem signals_unique (ht : producer.signals t = true) (hu : producer.signals u = true) :
    t = u := by
  cases producer with
  | signalling v => exact (of_decide_eq_true ht).symm.trans (of_decide_eq_true hu)
  | _ => cases ht

theorem signals_after {p : Call Co} (h : (producer.after t p).signals u = true) :
    producer.signals u = true ∧ ¬(u = t ∧ p = .idle) := by
  unfold ProducerPc.after at h
  split_ifs at h with hs
  · cases h
  · refine ⟨h, ?_⟩
    rintro ⟨rfl, hp⟩
    exact hs ⟨h, hp⟩

theorem after_of_not_signals {p : Call Co} (h : ¬(producer.signals t = true ∧ p = .idle)) :
    producer.after t p = producer := if_neg h

theorem EventInv.count {p : Call Co} (h : EventInv event producer cancelled)
    (hsignals : producer.signals t = true) (hone : event.count = 1)
    (hreach : (CountDownEvent.system Thread Co).Reach event')
    (hcall : event'.call = Function.update event.call t p)
    (hp : p = .countDownCas 1 ∧ event'.count = 1 ∨
      p = .resumeDequeue .countDown ∧ event'.count = 0) : EventInv event' producer cancelled where
  reach := hreach
  signalling u hu := by
    obtain rfl := signals_unique hsignals hu
    rw [hcall, Function.update_self]
    rcases hp with ⟨rfl, -⟩ | ⟨-, hzero⟩
    · exact .inr rfl
    · exact .inl hzero
  changes u hu := by
    rcases agent_cases (Q := fun p => p.changes ≠ 0) hcall hu with ⟨rfl, hne⟩ | ⟨hut, hne⟩
    · rcases hp with ⟨rfl, hone⟩ | ⟨rfl, -⟩
      · exact ⟨hsignals, hone, .inr (by rw [hcall, Function.update_self])⟩
      · exact absurd rfl hne
    · exact absurd (signals_unique (h.changes u hne).1 hsignals) hut
  sees u c caller hu := by
    rcases agent_cases (Q := fun p => p = .resumeSchedule c caller) hcall hu with
      ⟨-, hs⟩ | ⟨-, hs⟩
    · rcases hp with ⟨rfl, -⟩ | ⟨rfl, -⟩ <;> cases hs
    · rw [h.sees u c caller hs] at hone
      cases hone
  cancels u c hu := by
    rcases agent_cases (Q := fun p => p.cancels = some c) hcall hu with ⟨-, hs⟩ | ⟨-, hs⟩
    · rcases hp with ⟨rfl, -⟩ | ⟨rfl, -⟩ <;> cases hs
    · exact h.cancels u c hs

theorem EventInv.quiet {spurious : Bool} (h : EventInv event producer cancelled)
    (hchanges : (event.call t).changes = 0)
    (hs : CountDownEvent.callStep event t spurious (event.call t) = some event') :
    EventInv event' (producer.after t (event'.call t)) cancelled := by
  obtain ⟨hcount, hquiet⟩ := CountDownEvent.callStep_quiet hchanges hs
  obtain ⟨p, hf⟩ := CountDownEvent.callStep_flow hs
  obtain ⟨q, hd⟩ := CountDownEvent.callStep_does hs
  have hother : ∀ u, (event'.call u).changes ≠ 0 → u ≠ t ∧ event'.call u = event.call u := by
    intro u hu
    have hut : u ≠ t := by
      rintro rfl
      exact hu hquiet
    exact ⟨hut, by rw [hf.call, Function.update_of_ne hut]⟩
  refine ⟨h.reach.step (a := .call t spurious) hs, fun u hu => ?_, fun u hu => ?_,
    fun u c caller hu => ?_, fun u c hu => ?_⟩
  · rcases h.signalling u (signals_after hu).1 with hzero | hone
    · exact .inl (hcount.trans hzero)
    · have hut : u ≠ t := by
        rintro rfl
        rw [hchanges] at hone
        cases hone
      rw [hf.call, Function.update_of_ne hut]
      exact .inr hone
  · obtain ⟨hut, hcall⟩ := hother u hu
    rw [hcall] at hu ⊢
    obtain ⟨hsignals, hone, hcall⟩ := h.changes u hu
    have hnot : ¬(producer.signals t = true ∧ event'.call t = .idle) :=
      fun ht => hut (signals_unique hsignals ht.1)
    rw [after_of_not_signals hnot]
    exact ⟨hsignals, hcount.trans hone, hcall⟩
  · rw [hcount]
    rcases agent_cases (Q := fun p => p = .resumeSchedule c caller) hd.call hu with
      ⟨-, hq⟩ | ⟨-, hu⟩
    · exact (hd.seesZero c caller hq).2
    · exact h.sees u c caller hu
  · rcases agent_cases (Q := fun p => p.cancels = some c) hf.call hu with ⟨rfl, hp⟩ | ⟨-, hu⟩
    · rcases hf.cancels with hnone | hsame
      · rw [hnone] at hp
        cases hp
      · exact h.cancels u c (hsame ▸ hp)
    · exact h.cancels u c hu

theorem EventInv.countDownStep {spurious : Bool} (h : EventInv event producer cancelled)
    (hchanges : (event.call t).changes ≠ 0)
    (hs : CountDownEvent.callStep event t spurious (event.call t) = some event') :
    EventInv event' producer cancelled ∧ event'.call t ≠ .idle ∧ event'.count ≤ 1 ∧
      event'.awaits = event.awaits ∧ (event'.call t).asks = none := by
  obtain ⟨hsignals, hone, hcall⟩ := h.changes t hchanges
  have hreach : (CountDownEvent.system Thread Co).Reach event' :=
    h.reach.step (a := .call t spurious) hs
  have hstep : ∀ {p : Call Co}, event'.call = Function.update event.call t p →
      (p = .countDownCas 1 ∧ event'.count = 1 ∨
        p = .resumeDequeue .countDown ∧ event'.count = 0) → event'.awaits = event.awaits →
      EventInv event' producer cancelled ∧ event'.call t ≠ .idle ∧ event'.count ≤ 1 ∧
        event'.awaits = event.awaits ∧ (event'.call t).asks = none := by
    intro p hcall hp hawaits
    refine ⟨h.count hsignals hone hreach hcall hp, ?_, ?_, hawaits, ?_⟩
    · rw [hcall, Function.update_self]
      rcases hp with ⟨rfl, -⟩ | ⟨rfl, -⟩ <;> nofun
    · rcases hp with ⟨-, hone⟩ | ⟨-, hzero⟩ <;> omega
    · rw [hcall, Function.update_self]
      rcases hp with ⟨rfl, -⟩ | ⟨rfl, -⟩ <;> rfl
  rcases CountDownEvent.countDown_step hone hcall hs with he | he
  · subst he
    exact hstep rfl (.inl ⟨rfl, hone⟩) rfl
  · subst he
    exact hstep rfl (.inr ⟨rfl, rfl⟩) rfl

end Events

section Steps

variable {s s' : State Thread Co E V} {event' : CountDownEvent.State Thread Co} {t : Thread}
  {c : Co}

/-- What is known at a point of an await stays known: the event stays signalled, a
cancellation stays, and nobody ceases to wait without a reason. -/
theorem AwaitPc.Fits.mono {zero zero' : Prop} {cancelled cancelled' awaits awaits' : Bool}
    {value value' : Variant E V} {outcome outcome' : Option (Except E V)} {pc : AwaitPc E V}
    (h : pc.Fits zero cancelled awaits value outcome) (hzero : zero → zero')
    (hcancelled : cancelled = true → cancelled' = true)
    (hawaits : awaits = true → awaits' = true ∨ zero' ∨ cancelled' = true)
    (hvalue : zero → value' = value) (houtcome : ∀ r, outcome = some r → outcome' = some r) :
    pc.Fits zero' cancelled' awaits' value' outcome' := by
  cases pc with
  | refused | checkException => exact hzero h
  | parked => exact h.elim hawaits fun h => .inr (h.imp hzero hcancelled)
  | scheduled | onResume => exact h.imp hzero hcancelled
  | getValue =>
      obtain ⟨hz, v, hv⟩ := h
      exact ⟨hzero hz, v, (hvalue hz).trans hv⟩
  | got r => exact houtcome r h
  | cancellationError => exact hcancelled h
  | badVariantAccess => exact h
  | _ => trivial

omit [DecidableEq Thread] [DecidableEq Co] in
theorem ProducerPc.Fits.result {count : ℕ} {value : Variant E V}
    {outcome : Option (Except E V)} {producer : ProducerPc Thread E V}
    (h : producer.Fits count value outcome) (hzero : count = 0) :
    ∃ r, outcome = some r ∧ value = .ofOutcome r := by
  subst hzero
  cases producer with
  | body | store r | setReturned | assertCount | countDown => exact absurd h.1 nofun
  | signalling t => exact h.2
  | assertCountAfter | signalled => exact h.2

/-- Only a coroutine in `enqueue` or in the wait list is awaited by the event. -/
theorem Inv.awaits_eq_false (h : Inv s) (henqueueing : (s.awaiter c).isEnqueueing = false)
    (hparked : s.awaiter c ≠ .parked) : s.event.awaits c = false := by
  by_contra hawaits
  rcases h.awaits c (Bool.eq_true_of_not_eq_false hawaits) with he | hp
  · rw [henqueueing] at he
    cases he
  · exact hparked hp

theorem Inv.put {pc : AwaitPc E V} (h : Inv s) (hawaits : s.event.awaits c = false)
    (henqueueing : (s.awaiter c).isEnqueueing = false) (hpc : pc.isEnqueueing = false)
    (hfits : pc.Fits (s.event.count = 0) (s.cancelled c) false s.value s.outcome) :
    Inv (s.put c pc) where
  event := h.event
  producer := h.producer
  enqueueing d := by
    unfold State.put
    dsimp only
    by_cases hd : d = c
    · subst hd
      rw [Function.update_self, hpc, ← h.enqueueing d, henqueueing]
    · rw [Function.update_of_ne hd]
      exact h.enqueueing d
  awaits d hd := by
    have hne : d ≠ c := by
      rintro rfl
      exact Bool.false_ne_true (hawaits.symm.trans hd)
    unfold State.put
    dsimp only
    rw [Function.update_of_ne hne]
    exact h.awaits d hd
  awaiter d := by
    unfold State.put
    dsimp only
    by_cases hd : d = c
    · subst hd
      rw [Function.update_self, hawaits]
      exact hfits
    · rw [Function.update_of_ne hd]
      exact h.awaiter d
  noAssertion := h.noAssertion

/-- What a step of a call leaves of the count and of the producer. -/
theorem Inv.producer_callStep {spurious : Bool} (h : Inv s)
    (hs : CountDownEvent.callStep s.event t spurious (s.event.call t) = some event') :
    EventInv event' (s.producer.after t (event'.call t)) s.cancelled ∧
      (s.producer.after t (event'.call t)).Fits event'.count s.value s.outcome ∧
      (s.event.count = 0 → event'.count = 0) := by
  by_cases hchanges : (s.event.call t).changes = 0
  · obtain ⟨hcount, -⟩ := CountDownEvent.callStep_quiet hchanges hs
    refine ⟨h.event.quiet hchanges hs, ?_, fun hzero => hcount.trans hzero⟩
    rw [hcount]
    by_cases hdone : s.producer.signals t = true ∧ event'.call t = .idle
    · have hzero : s.event.count = 0 := by
        refine (h.event.signalling t hdone.1).resolve_right ?_
        rw [hchanges]
        nofun
      unfold ProducerPc.after
      rw [if_pos hdone]
      exact ⟨hzero, h.producer.result hzero⟩
    · rw [after_of_not_signals hdone]
      exact h.producer
  · obtain ⟨hsignals, hone, -⟩ := h.event.changes t hchanges
    obtain ⟨hevent, hidle, hle, -⟩ := h.event.countDownStep hchanges hs
    rw [after_of_not_signals fun hdone => hidle hdone.2]
    refine ⟨hevent, ?_, fun hzero => absurd (hzero.symm.trans hone) nofun⟩
    have hproducer := h.producer
    cases hp : s.producer with rw [hp] at hproducer hsignals
    | signalling u => exact ⟨hle, hproducer.2⟩
    | _ => cases hsignals

/-- The coroutine that the thread enqueues leaves `enqueue`, refused or put into the list. -/
theorem Inv.leave {p : Call Co} {producer : ProducerPc Thread E V} (h : Inv s) (pc : AwaitPc E V)
    (hevent : EventInv event' producer s.cancelled)
    (hproducer : producer.Fits event'.count s.value s.outcome)
    (hcount : event'.count = s.event.count)
    (hasks : (s.event.call t).asks = some c)
    (hcall : event'.call = Function.update s.event.call t p) (hp : p.asks = none)
    (hother : ∀ d, d ≠ c → event'.awaits d = s.event.awaits d)
    (hself : event'.awaits c = true → pc = .parked) (hpc : pc.isEnqueueing = false)
    (hfits : pc.Fits (event'.count = 0) (s.cancelled c) (event'.awaits c) s.value s.outcome) :
    Inv { s with
      event := event'
      awaiter := Function.update s.awaiter c pc
      producer := producer } where
  event := hevent
  producer := hproducer
  enqueueing d := by
    dsimp only
    by_cases hd : d = c
    · subst hd
      rw [Function.update_self, hpc]
      refine ⟨nofun, fun ⟨u, hu⟩ => ?_⟩
      rcases agent_cases (Q := fun p => p.asks = some d) hcall hu with ⟨-, hs⟩ | ⟨hut, hs⟩
      · rw [hp] at hs
        cases hs
      · exact absurd ((CountDownEvent.waits_of_reach h.event.reach).unique u t d hs hasks) hut
    · rw [Function.update_of_ne hd, h.enqueueing d]
      refine exists_congr fun u => ?_
      by_cases hut : u = t
      · subst hut
        rw [hcall, Function.update_self, hp, hasks]
        exact ⟨fun hs => absurd (Option.some.inj hs).symm hd, nofun⟩
      · rw [hcall, Function.update_of_ne hut]
  awaits d hd := by
    dsimp only at hd ⊢
    by_cases hdc : d = c
    · subst hdc
      rw [Function.update_self]
      exact .inr (hself hd)
    · rw [Function.update_of_ne hdc]
      exact h.awaits d (hother d hdc ▸ hd)
  awaiter d := by
    dsimp only
    by_cases hd : d = c
    · subst hd
      rw [Function.update_self]
      exact hfits
    · rw [Function.update_of_ne hd, hother d hd, hcount]
      exact h.awaiter d
  noAssertion := h.noAssertion

theorem Inv.stay {spurious : Bool} (h : Inv s) (hasks : (s.event.call t).asks = none)
    (hs : CountDownEvent.callStep s.event t spurious (s.event.call t) = some event') :
    Inv { s with event := event', producer := s.producer.after t (event'.call t) } := by
  obtain ⟨hevent, hproducer, hzero⟩ := h.producer_callStep hs
  obtain ⟨p, hf⟩ := CountDownEvent.callStep_flow hs
  have hasks' := CountDownEvent.callStep_asks hasks hs
  refine ⟨hevent, hproducer, fun d => (h.enqueueing d).trans (exists_congr fun u => ?_),
    fun d hd => h.awaits d (CountDownEvent.awaits_of_callStep hs hd).1,
    fun d => (h.awaiter d).mono hzero id (fun hawaits => ?_) (fun _ => rfl) fun _ => id,
    h.noAssertion⟩
  · by_cases hut : u = t
    · subst hut
      rw [hasks, hasks']
    · dsimp only
      rw [hf.call, Function.update_of_ne hut]
  -- who ceases to wait sees the event at zero or is cancelled
  · dsimp only
    rcases CountDownEvent.callStep_awaits hs with ⟨hsame, -⟩ | ⟨c, hupdate, hc, -⟩
    · exact .inl (hsame ▸ hawaits)
    · by_cases hdc : d = c
      · subst hdc
        rcases hc with ⟨hp, -⟩ | ⟨caller, hp⟩ | hp
        · rw [hp] at hasks
          cases hasks
        · exact .inr (.inl (hzero (h.event.sees t d caller hp)))
        · exact .inr (.inr (h.event.cancels t d (by rw [hp]; rfl)))
      · exact .inl (by rw [hupdate, Function.update_of_ne hdc]; exact hawaits)

theorem AwaitPc.exists_of_isEnqueueing {pc : AwaitPc E V} (h : pc.isEnqueueing = true) :
    ∃ shouldSuspend, pc = .enqueueing shouldSuspend := by
  cases pc with
  | enqueueing shouldSuspend => exact ⟨shouldSuspend, rfl⟩
  | _ => cases h

theorem Inv.callStep {spurious : Bool} (h : Inv s) (ha : s.callStep t spurious = some s') :
    Inv s' := by
  obtain ⟨event', hstep, rfl⟩ := Option.map_eq_some_iff.mp ha
  have hs : CountDownEvent.callStep s.event t spurious (s.event.call t) = some event' := hstep
  have hwaits := CountDownEvent.waits_of_reach h.event.reach
  obtain ⟨hevent, hproducer, -⟩ := h.producer_callStep hs
  cases hp : s.event.call t with
  | enqueueIsZero c =>
      have hasks : (s.event.call t).asks = some c := by rw [hp]; rfl
      obtain ⟨shouldSuspend, hc⟩ :=
        AwaitPc.exists_of_isEnqueueing ((h.enqueueing c).mpr ⟨t, hasks⟩)
      rw [hp] at hs
      unfold State.awaiterAfter
      dsimp only
      by_cases hzero : s.event.isZero = true
      · have he := (Option.some.inj hs).symm
        rw [if_pos hzero] at he ⊢
        rw [hc]
        refine h.leave (.refused shouldSuspend) hevent hproducer (by rw [he]; rfl) hasks
          (by rw [he]; rfl) rfl (fun d hd => ?_) (fun hd => ?_) rfl ?_
        · rw [he]
          exact Function.update_of_ne hd ..
        · rw [he] at hd
          have hself : Function.update s.event.awaits c false c = true := hd
          rw [Function.update_self] at hself
          cases hself
        · have hcount : s.event.count = 0 := of_decide_eq_true hzero
          rw [he]
          exact hcount
      · have he := (Option.some.inj hs).symm
        rw [if_neg hzero] at he ⊢
        have hcall : event'.call = Function.update s.event.call t (.enqueuePush c) := by
          rw [he]
          rfl
        refine ⟨hevent, hproducer, fun d => (h.enqueueing d).trans (exists_congr fun u => ?_),
          fun d hd => h.awaits d (by rw [he] at hd; exact hd), fun d => ?_, h.noAssertion⟩
        · dsimp only
          by_cases hut : u = t
          · subst hut
            rw [hcall, Function.update_self, hp]
            exact Iff.rfl
          · rw [hcall, Function.update_of_ne hut]
        · rw [he]
          exact h.awaiter d
  | enqueuePush c =>
      have hasks : (s.event.call t).asks = some c := by rw [hp]; rfl
      rw [hp] at hs
      have he := (Option.some.inj hs).symm
      refine h.leave .parked hevent hproducer (by rw [he]; rfl) hasks
        (by rw [he]; rfl) rfl (fun d _ => by rw [he]; rfl) (fun _ => rfl) rfl (.inl ?_)
      rw [he]
      exact (hwaits.asks t c hasks).1
  | _ =>
      unfold State.awaiterAfter
      exact h.stay (by rw [hp]; rfl) hs

theorem EventInv.begin {event : CountDownEvent.State Thread Co}
    {producer producer' : ProducerPc Thread E V} {cancelled : Co → Bool} {p : Call Co}
    (h : EventInv event producer cancelled)
    (hreach : (CountDownEvent.system Thread Co).Reach event') (hidle : event.call t = .idle)
    (hcall : event'.call = Function.update event.call t p) (hcount : event'.count = event.count)
    (hsees : ∀ c caller, p ≠ .resumeSchedule c caller)
    (hcancels : ∀ c, p.cancels = some c → cancelled c = true)
    (hp : p.changes = 0 ∧ producer' = producer ∨ p = .countDownLoad ∧
      producer' = .signalling t ∧ event.count = 1 ∧ ∀ u, producer.signals u = false) :
    EventInv event' producer' cancelled where
  reach := hreach
  signalling u hu := by
    rw [hcount, hcall]
    rcases hp with ⟨-, rfl⟩ | ⟨rfl, rfl, -⟩
    · refine (h.signalling u hu).imp_right fun hchanges => ?_
      have hut : u ≠ t := by
        rintro rfl
        rw [hidle] at hchanges
        cases hchanges
      rwa [Function.update_of_ne hut]
    · obtain rfl : t = u := of_decide_eq_true hu
      rw [Function.update_self]
      exact .inr rfl
  changes u hu := by
    rw [hcount]
    rcases agent_cases (Q := fun p => p.changes ≠ 0) hcall hu with ⟨rfl, hne⟩ | ⟨hut, hne⟩
    · rcases hp with ⟨hzero, -⟩ | ⟨rfl, rfl, hone, -⟩
      · exact absurd hzero hne
      · exact ⟨decide_eq_true rfl, hone, .inl (by rw [hcall, Function.update_self])⟩
    · obtain ⟨hsignals, hrest⟩ := h.changes u hne
      rcases hp with ⟨-, rfl⟩ | ⟨-, -, -, hnone⟩
      · rw [hcall, Function.update_of_ne hut]
        exact ⟨hsignals, hrest⟩
      · rw [hnone u] at hsignals
        cases hsignals
  sees u c caller hu := by
    rw [hcount]
    rcases agent_cases (Q := fun p => p = .resumeSchedule c caller) hcall hu with
      ⟨-, hs⟩ | ⟨-, hs⟩
    · exact absurd hs (hsees c caller)
    · exact h.sees u c caller hs
  cancels u c hu := by
    rcases agent_cases (Q := fun p => p.cancels = some c) hcall hu with ⟨-, hs⟩ | ⟨-, hs⟩
    · exact hcancels c hs
    · exact h.cancels u c hs

theorem Inv.cancel (h : Inv s) :
    Inv { s with cancelled := Function.update s.cancelled c true } := by
  have hmono : ∀ d, s.cancelled d = true → Function.update s.cancelled c true d = true := by
    intro d hd
    rw [Function.update_apply, hd, ite_self]
  refine ⟨⟨h.event.reach, h.event.signalling, h.event.changes, h.event.sees,
    fun t d hd => hmono d (h.event.cancels t d hd)⟩, h.producer, h.enqueueing, h.awaits,
    fun d => ?_, h.noAssertion⟩
  exact (h.awaiter d).mono id (hmono d) .inl (fun _ => rfl) fun _ => id

theorem cancelled_of_onReady {sameThreadPoolKind canDoChainedExecution isCancelled : Bool}
    (h : AwaiterKind.value.onReady sameThreadPoolKind canDoChainedExecution .running false
      isCancelled = .shouldNotSuspend) : isCancelled = true := by
  unfold AwaiterKind.onReady at h
  split_ifs at h <;> simp_all

theorem cancelled_of_onSuspend {sameThreadPoolKind canDoChainedExecution isCancelled : Bool}
    (h : AwaiterKind.value.onSuspend sameThreadPoolKind canDoChainedExecution .running false
      isCancelled = .shouldNotSuspend) : isCancelled = true := by
  unfold AwaiterKind.onSuspend at h
  split_ifs at h <;> simp_all

theorem Inv.enqueue {shouldSuspend : Bool} (h : Inv s)
    (hs : CountDownEvent.step s.event (.enqueue c t) = some event') :
    Inv { s.put c (.enqueueing shouldSuspend) with event := event' } := by
  have hreach : (CountDownEvent.system Thread Co).Reach event' :=
    h.event.reach.step (a := .enqueue c t) hs
  obtain ⟨⟨hidle, hawaits⟩, he⟩ := Option.ite_none_right_eq_some.mp hs
  cases he
  refine ⟨h.event.begin (p := .enqueueIsZero c) hreach hidle rfl rfl nofun nofun
    (.inl ⟨rfl, rfl⟩), h.producer, fun d => ?_, fun d hd => ?_, fun d => ?_, h.noAssertion⟩
  · unfold State.put CountDownEvent.State.go
    dsimp only
    by_cases hdc : d = c
    · subst hdc
      rw [Function.update_self]
      refine ⟨fun _ => ⟨t, ?_⟩, fun _ => rfl⟩
      rw [Function.update_self]
      rfl
    · rw [Function.update_of_ne hdc, h.enqueueing d]
      refine exists_congr fun u => ?_
      by_cases hut : u = t
      · subst hut
        rw [Function.update_self, hidle]
        exact ⟨nofun, fun hasks => absurd (Option.some.inj hasks).symm hdc⟩
      · rw [Function.update_of_ne hut]
  · unfold State.put
    dsimp only at hd ⊢
    by_cases hdc : d = c
    · subst hdc
      rw [Function.update_self]
      exact .inl rfl
    · rw [Function.update_of_ne hdc] at hd ⊢
      exact h.awaits d hd
  · unfold State.put
    dsimp only
    by_cases hdc : d = c
    · subst hdc
      rw [Function.update_self, Function.update_self]
      trivial
    · rw [Function.update_of_ne hdc, Function.update_of_ne hdc]
      exact h.awaiter d

theorem Inv.awaiterStep {sameThreadPoolKind canDoChainedExecution shutdown : Bool} (h : Inv s)
    (ha : s.awaiterStep c t sameThreadPoolKind canDoChainedExecution shutdown (s.awaiter c) =
      some s') : Inv s' := by
  have hfits := h.awaiter c
  have hput : ∀ {pc : AwaitPc E V}, (s.awaiter c).isEnqueueing = false →
      s.awaiter c ≠ .parked → pc.isEnqueueing = false →
      pc.Fits (s.event.count = 0) (s.cancelled c) false s.value s.outcome → Inv (s.put c pc) :=
    fun henqueueing hparked hpc hfits =>
      h.put (h.awaits_eq_false henqueueing hparked) henqueueing hpc hfits
  cases hp : s.awaiter c with rw [hp] at ha hfits hput
  | idle | enqueueing | got | cancellationError | badVariantAccess => cases ha
  | onReady =>
      cases ha
      cases hadvice : AwaiterKind.value.onReady sameThreadPoolKind canDoChainedExecution .running
        false (s.cancelled c) with
      | shouldNotSuspend => exact hput rfl nofun rfl (.inr (cancelled_of_onReady hadvice))
      | shouldSuspend | maySuspend => exact hput rfl nofun rfl trivial
  | readyIsSignaled =>
      cases ha
      split_ifs with hzero
      · exact hput rfl nofun rfl (.inl (of_decide_eq_true hzero))
      · exact hput rfl nofun rfl trivial
  | onSuspend =>
      cases ha
      cases hadvice : AwaiterKind.value.onSuspend sameThreadPoolKind canDoChainedExecution .running
        false (s.cancelled c) with
      | shouldNotSuspend => exact hput rfl nofun rfl (.inr (cancelled_of_onSuspend hadvice))
      | shouldSuspend | maySuspend => exact hput rfl nofun rfl trivial
  | suspendIsSignaled shouldSuspend =>
      cases ha
      split_ifs with hzero
      · cases shouldSuspend <;> exact hput rfl nofun rfl (.inl (of_decide_eq_true hzero))
      · exact hput rfl nofun rfl trivial
  | enqueue shouldSuspend =>
      obtain ⟨event', hs, rfl⟩ := Option.map_eq_some_iff.mp ha
      exact h.enqueue hs
  | refused shouldSuspend =>
      have hzero : s.event.isZero = true := decide_eq_true hfits
      have he := (Option.some.inj ha).symm
      rw [hzero, Bool.not_true, Bool.or_false] at he
      rw [he]
      cases shouldSuspend <;> exact hput rfl nofun rfl (.inl hfits)
  | parked =>
      obtain ⟨hawaits, he⟩ := Option.ite_none_left_eq_some.mp ha
      cases he
      have hfree := hfits.resolve_left hawaits
      exact h.put (Bool.eq_false_iff.mpr hawaits) (by rw [hp]; rfl) rfl hfree
  | scheduled =>
      cases ha
      exact hput rfl nofun rfl hfits
  | onResume =>
      have he := (Option.some.inj ha).symm
      by_cases hshutdown : shutdown = true
      · rw [if_pos hshutdown] at he
        rw [he]
        have hcancel : Inv { s with cancelled := Function.update s.cancelled c true } := h.cancel
        exact hcancel.put (h.awaits_eq_false (by rw [hp]; rfl) (by rw [hp]; nofun))
          (by rw [hp]; rfl) rfl (Function.update_self ..)
      · rw [if_neg hshutdown] at he
        rw [he]
        split_ifs with hcancelled
        · exact hput rfl nofun rfl hcancelled
        · exact hput rfl nofun rfl (hfits.resolve_right hcancelled)
  | checkException =>
      cases ha
      obtain ⟨r, houtcome, hvalue⟩ := h.producer.result hfits
      rw [hvalue]
      cases r with
      | ok v => exact hput rfl nofun rfl ⟨hfits, v, hvalue⟩
      | error e => exact hput rfl nofun rfl houtcome
  | getValue =>
      cases ha
      obtain ⟨hzero, v, hv⟩ := hfits
      obtain ⟨r, houtcome, hvalue⟩ := h.producer.result hzero
      rw [hv]
      cases r with
      | ok w =>
          obtain rfl : v = w := Variant.value.inj (hv.symm.trans hvalue)
          exact hput rfl nofun rfl houtcome
      | error e => cases hv.symm.trans hvalue

theorem Inv.producerStep (h : Inv s) (ha : s.producerStep t s.producer = some s') : Inv s' := by
  have hfits := h.producer
  have hevent : ∀ {producer : ProducerPc Thread E V}, (∀ u, s.producer.signals u = false) →
      (∀ u, producer.signals u = false) → EventInv s.event producer s.cancelled :=
    fun hnone hnone' => ⟨h.event.reach, fun u hu => absurd ((hnone' u).symm.trans hu) nofun,
      fun u hu => absurd ((hnone u).symm.trans (h.event.changes u hu).1) nofun, h.event.sees,
      h.event.cancels⟩
  cases hp : s.producer with rw [hp] at ha hfits hevent
  | body | signalling | signalled => cases ha
  | store r =>
      cases ha
      refine ⟨hevent (fun _ => rfl) fun _ => rfl, ⟨hfits.1, r, hfits.2, rfl⟩, h.enqueueing,
        h.awaits, fun c => ?_, h.noAssertion⟩
      exact (h.awaiter c).mono id id .inl
        (fun hzero => absurd (hzero.symm.trans hfits.1) nofun) fun _ => id
  | setReturned =>
      cases ha
      exact ⟨hevent (fun _ => rfl) fun _ => rfl, hfits, h.enqueueing, h.awaits, h.awaiter,
        h.noAssertion⟩
  | assertCount =>
      cases ha
      refine ⟨hevent (fun _ => rfl) fun _ => rfl, hfits, h.enqueueing, h.awaits, h.awaiter, ?_⟩
      simp [h.noAssertion, hfits.1]
  | countDown =>
      obtain ⟨event', hs, rfl⟩ := Option.map_eq_some_iff.mp ha
      have hreach : (CountDownEvent.system Thread Co).Reach event' :=
        h.event.reach.step (a := .countDown t) hs
      obtain ⟨hidle, he⟩ := Option.ite_none_right_eq_some.mp hs
      cases he
      refine ⟨h.event.begin hreach hidle rfl rfl nofun nofun
        (.inr ⟨rfl, rfl, hfits.1, fun u => by rw [hp]; rfl⟩), ⟨hfits.1.le, hfits.2⟩,
        fun c => (h.enqueueing c).trans (exists_congr fun u => ?_), h.awaits, h.awaiter,
        h.noAssertion⟩
      unfold CountDownEvent.State.go
      dsimp only
      by_cases hut : u = t
      · subst hut
        rw [Function.update_self, hidle]
        exact Iff.rfl
      · rw [Function.update_of_ne hut]
  | assertCountAfter =>
      cases ha
      refine ⟨hevent (fun _ => rfl) fun _ => rfl, hfits, h.enqueueing, h.awaits, h.awaiter, ?_⟩
      simp [h.noAssertion, hfits.1]

theorem Inv.finish {r : Except E V} (h : Inv s) (ha : s.finish r s.producer = some s') :
    Inv s' := by
  have hfits := h.producer
  have hchanges := h.event.changes
  cases hp : s.producer with rw [hp] at ha hfits hchanges
  | body =>
      cases ha
      refine ⟨⟨h.event.reach, nofun, fun u hu => absurd (hchanges u hu).1 nofun, h.event.sees,
        h.event.cancels⟩, ⟨hfits.1, rfl⟩, h.enqueueing, h.awaits, fun c => ?_, h.noAssertion⟩
      refine (h.awaiter c).mono id id .inl (fun _ => rfl) fun r' hr' => ?_
      rw [hfits.2] at hr'
      cases hr'
  | _ => cases ha

theorem Inv.step {a : Action Thread Co E V} (h : Inv s) (ha : step s a = some s') : Inv s' := by
  cases a with
  | finish r => exact h.finish ha
  | producer t => exact h.producerStep ha
  | await c =>
      obtain ⟨hidle, he⟩ := Option.ite_none_right_eq_some.mp ha
      cases he
      have henqueueing : (s.awaiter c).isEnqueueing = false := by
        cases hp : s.awaiter c with rw [hp] at hidle
        | enqueueing => cases hidle
        | _ => rfl
      have hparked : s.awaiter c ≠ .parked := by
        intro hp
        rw [hp] at hidle
        cases hidle
      have hawaits := h.awaits_eq_false henqueueing hparked
      split_ifs with hcancelled
      · exact h.put hawaits henqueueing rfl hcancelled
      · exact h.put hawaits henqueueing rfl trivial
  | awaiter c t sameThreadPoolKind canDoChainedExecution shutdown => exact h.awaiterStep ha
  | call t spurious => exact h.callStep ha
  | cancel c =>
      cases ha
      exact h.cancel
  | cancelAwaiter c t =>
      obtain ⟨hcancelled, ha⟩ := Option.ite_none_right_eq_some.mp ha
      obtain ⟨event', hs, rfl⟩ := Option.map_eq_some_iff.mp ha
      have hreach : (CountDownEvent.system Thread Co).Reach event' :=
        h.event.reach.step (a := .cancel c t) hs
      obtain ⟨hidle, he⟩ := Option.ite_none_right_eq_some.mp hs
      cases he
      refine ⟨h.event.begin hreach hidle rfl rfl nofun (fun d hd => ?_) (.inl ⟨rfl, rfl⟩),
        h.producer, fun d => (h.enqueueing d).trans (exists_congr fun u => ?_), h.awaits,
        h.awaiter, h.noAssertion⟩
      · obtain rfl : c = d := Option.some.inj hd
        exact hcancelled
      · unfold CountDownEvent.State.go
        dsimp only
        by_cases hut : u = t
        · subst hut
          rw [Function.update_self, hidle]
          exact Iff.rfl
        · rw [Function.update_of_ne hut]

theorem inv_of_reach (hs : (system Thread Co E V).Reach s) : Inv s := by
  refine hs.invariant (fun s hstart => ?_) fun s a s' h ha => h.step ha
  subst hstart
  exact
    { event := ⟨.start ⟨false, 1, rfl⟩, nofun, nofun, nofun, nofun⟩
      producer := ⟨rfl, rfl⟩
      enqueueing := fun c => ⟨nofun, fun ⟨_, hasks⟩ => nomatch hasks⟩
      awaits := nofun
      awaiter := fun _ => trivial
      noAssertion := rfl }

/-- Whoever awaits an `AsyncTask`, on whatever thread, with however many others and however
often, gets what its body ended with, or is cancelled; the assertions of `signal` and the one
after `enqueue` hold, the variant is never read for what it does not hold, and while the
event is signalled the result is there. -/
theorem await_returns_outcome (hs : (system Thread Co E V).Reach s) :
    s.assertFailed = false ∧
    (s.event.isZero = true → ∃ r, s.outcome = some r ∧ s.value = .ofOutcome r) ∧
    ∀ c, s.awaiter c ≠ .badVariantAccess ∧ (∀ r, s.awaiter c = .got r → s.outcome = some r) ∧
      (s.awaiter c = .cancellationError → s.cancelled c = true) := by
  have h := inv_of_reach hs
  refine ⟨h.noAssertion, fun hzero => h.producer.result (of_decide_eq_true hzero), fun c => ?_⟩
  have hfits := h.awaiter c
  refine ⟨fun hp => ?_, fun r hp => ?_, fun hp => ?_⟩
  · rw [hp] at hfits
    exact hfits
  · rw [hp] at hfits
    exact hfits
  · rw [hp] at hfits
    exact hfits

end Steps

def AwaitPc.gotValue : AwaitPc E V → Option V
  | .got (.ok v) => some v
  | _ => none

/-- The next step of the only coroutine, on a thread of its pool. -/
def awaiter : Action (Fin 2) Unit Unit Bool := .awaiter () 0 true true false

/-- The coroutine is in the wait list when the body returns and the other thread signals. -/
theorem await_returns_outcome_parked : ∃ s : State (Fin 2) Unit Unit Bool,
    s.event.enqueues () = 1 ∧ s.awaiter () = .got (.ok true) ∧ s.assertFailed = false ∧
      s.outcome = some (.ok true) := by
  obtain ⟨s, hs, henqueues, hvalue⟩ := StepSystem.Reach.exists_of_exec
    (M := system (Fin 2) Unit Unit Bool)
    (P := fun s => s.event.enqueues () = 1 ∧ (s.awaiter ()).gotValue = some true) (.start rfl)
    (.await () :: List.replicate 5 awaiter ++ List.replicate 4 (.call 0 false) ++
      .finish (.ok true) :: List.replicate 4 (.producer 1) ++ List.replicate 6 (.call 1 false) ++
      List.replicate 4 awaiter) (by decide)
  have hgot : s.awaiter () = .got (.ok true) := by
    unfold AwaitPc.gotValue at hvalue
    split at hvalue
    · next v hv => rw [hv, Option.some.inj hvalue]
    · cases hvalue
  obtain ⟨hassert, -, hawaits⟩ := await_returns_outcome hs
  exact ⟨s, henqueues, hgot, hassert, (hawaits ()).2.1 _ hgot⟩

end LevelzAsync.AsyncValue
