import LevelzAsync.CountDownEventFlow
import LevelzAsync.EventDestructor

/-!
# Destroying a counting event forgets no waiter
-/

namespace LevelzAsync.EventDestructor

open CountDownEvent (Call inHand)

variable {Thread Co : Type*}

namespace DestructorPc

def held : DestructorPc Co → Option Co
  | listCount coroutine | setCancelled coroutine | schedule coroutine => some coroutine
  | _ => none

def isDrained : DestructorPc Co → Bool
  | waitTillEmpty | scopeWaitTillEmpty | returned => true
  | _ => false

end DestructorPc

structure Settled (s : State Thread Co) : Prop where
  unlinked : s.event.waitQueue = []
  left : ∀ t, (s.event.call t).isBusy = false ∧ s.scope.inside t = false
  scheduled : ∀ c, s.event.enqueues c = s.event.schedules c + s.destructorSchedules c
  marked : ∀ c, s.cancelled c = false → s.event.eventSchedules c = s.event.enqueues c

structure Inv [Fintype Thread] [DecidableEq Co] (s : State Thread Co) : Prop where
  tally : ∀ c, s.event.enqueues c = s.event.schedules c + s.destructorSchedules c +
    (s.event.waitQueue.count c + inHand s.destructor.held c) +
    ∑ t, (s.event.call t).holding c
  scope : s.scope.Counts
  removing : ∀ t c, (s.event.call t).cancels = some c → s.cancelled c = true
  marking : ∀ c, s.destructor = .schedule c → s.cancelled c = true
  marked : ∀ c, s.event.cancelSchedules c ≠ 0 ∨ s.destructorSchedules c ≠ 0 → s.cancelled c = true

/-- Nobody links a coroutine after the drain, and every call in flight is counted when
the destructor finds the scope empty at last. -/
structure Clean (s : State Thread Co) : Prop where
  drained : s.destructor.isDrained = true → s.event.waitQueue = []
  returned : s.destructor = .returned → ∀ t,
    (s.event.call t).isBusy = false ∧ s.scope.inside t = false

section Steps

variable [Fintype Thread] [DecidableEq Thread] [DecidableEq Co] {s s' : State Thread Co}
  {chained : Co → Bool} {t : Thread}

omit [DecidableEq Thread] in
theorem Inv.observe (h : Inv s) : Inv s.observe :=
  ⟨h.tally, h.scope, h.removing, h.marking, h.marked⟩

omit [DecidableEq Thread] in
/-- A step that moves no coroutine and nobody into or out of the scope. -/
theorem Inv.frame (h : Inv s) (hevent : s'.event = s.event) (hscope : s'.scope = s.scope)
    (hdestructor : s'.destructor = s.destructor)
    (hcancelled : s'.cancelled = s.cancelled)
    (hschedules : s'.destructorSchedules = s.destructorSchedules) : Inv s' := by
  refine ⟨?_, ?_, ?_, ?_, ?_⟩
  · rw [hevent, hdestructor, hschedules]
    exact h.tally
  · rw [hscope]
    exact h.scope
  · rw [hevent, hcancelled]
    exact h.removing
  · rw [hdestructor, hcancelled]
    exact h.marking
  · rw [hevent, hcancelled, hschedules]
    exact h.marked

theorem Inv.flow {event : CountDownEvent.State Thread Co} {p : Call Co} (h : Inv s)
    (hf : CountDownEvent.Flow s.event event t p) : Inv { s with event := event } := by
  refine ⟨fun c => ?_, h.scope, fun u c hu => ?_, h.marking, fun c hc => ?_⟩
  · have htally := h.tally c
    have hflow := hf.flow c
    have hsum := sum_update_tally s.event.call (fun p => p.holding c) t p
    rw [← hf.call] at hsum
    dsimp only
    omega
  · rcases agent_cases (Q := fun p => p.cancels = some c) hf.call hu with ⟨-, hu⟩ | ⟨-, hu⟩
    · rcases hf.cancels with hn | he
      · rw [hn] at hu
        cases hu
      · exact h.removing t c (he ▸ hu)
    · exact h.removing u c hu
  · by_cases hsame : event.cancelSchedules c = s.event.cancelSchedules c
    · exact h.marked c (hsame ▸ hc)
    · exact h.removing t c (hf.cancelSchedules c hsame)

theorem Inv.callStep {spurious : Bool} (h : Inv s)
    (ha : callStep chained s t spurious = some s') : Inv s' := by
  rw [EventDestructor.callStep] at ha
  split at ha
  · cases ha
    exact h.frame rfl rfl rfl rfl rfl
  · cases ha
    exact ⟨h.tally, h.scope.onEnter ‹_›, h.removing, h.marking, h.marked⟩
  · cases ha
    exact ⟨h.tally, h.scope.onEnter ‹_›, h.removing, h.marking, h.marked⟩
  · cases ha
    exact ⟨h.tally, h.scope.onExit ‹_›, h.removing, h.marking, h.marked⟩
  · obtain ⟨event, hevent, rfl⟩ := Option.map_eq_some_iff.mp ha
    obtain ⟨p, hf⟩ := CountDownEvent.callStep_flow hevent
    exact (h.flow hf).frame rfl rfl rfl rfl rfl

omit [DecidableEq Thread] in
theorem Inv.setCancelled (h : Inv s) (c : Co) :
    Inv { s with cancelled := Function.update s.cancelled c true } := by
  have hmark : ∀ d, s.cancelled d = true → Function.update s.cancelled c true d = true :=
    fun d hd => by
      rw [Function.update_apply]
      split_ifs
      · rfl
      · exact hd
  exact ⟨h.tally, h.scope, fun t d hd => hmark d (h.removing t d hd),
    fun d hd => hmark d (h.marking d hd), fun d hd => hmark d (h.marked d hd)⟩

theorem Inv.begin {a : CountDownEvent.Action Thread Co} (h : Inv s)
    (ha : s.begin t a = some s') (hstart : ∀ u spurious, a ≠ .call u spurious)
    (hcancel : ∀ c u, a = .cancel c u → s.cancelled c = true) : Inv s' := by
  obtain ⟨-, ha⟩ := Option.ite_none_right_eq_some.mp ha
  obtain ⟨event, hevent, rfl⟩ := Option.map_eq_some_iff.mp ha
  have hb := CountDownEvent.step_begins hevent hstart
  refine ⟨fun c => ?_, h.scope, fun v c hv => ?_, h.marking, ?_⟩
  · have htally := h.tally c
    have hsum := sum_update_tally s.event.call (fun p => p.holding c) a.thread a.begins
    have hidle : (Call.idle : Call Co).holding c = 0 := rfl
    have hbegins : a.begins.holding c = 0 := by cases a <;> rfl
    rw [← hb.call, hb.idle, hidle, hbegins] at hsum
    simp only [CountDownEvent.State.schedules, hb.waitQueue, hb.enqueues, hb.eventSchedules,
      hb.cancelSchedules] at htally ⊢
    omega
  · rcases agent_cases (Q := fun p => p.cancels = some c) hb.call hv with ⟨-, hv⟩ | ⟨-, hv⟩
    · cases a with
      | cancel d w => exact hcancel c w (by rw [Option.some.inj hv])
      | _ => cases hv
    · exact h.removing v c hv
  · dsimp only
    rw [hb.cancelSchedules]
    exact h.marked

omit [DecidableEq Thread] in
theorem Inv.destructorStep (h : Inv s) (ha : destructorStep s s.destructor = some s') :
    Inv s' := by
  have htally := h.tally
  cases hd : s.destructor with
  | idle | returned =>
      rw [hd] at ha
      cases ha
  | dequeue =>
      rw [hd] at ha htally
      cases hqueue : s.event.waitQueue with
      | nil =>
          have he := Option.some.inj ha
          rw [hqueue] at he
          subst he
          exact ⟨htally, h.scope, h.removing, nofun, h.marked⟩
      | cons coroutine rest =>
          have he := Option.some.inj ha
          rw [hqueue] at he
          subst he
          refine ⟨fun c => ?_, h.scope, h.removing, nofun, h.marked⟩
          have := htally c
          rw [hqueue, CountDownEvent.count_cons_inHand] at this
          exact this
  | listCount coroutine =>
      rw [hd] at ha htally
      cases ha
      exact ⟨htally, h.scope, h.removing, nofun, h.marked⟩
  | setCancelled coroutine =>
      rw [hd] at ha htally
      cases ha
      have hs := h.setCancelled coroutine
      refine ⟨htally, hs.scope, hs.removing, fun c hc => ?_, hs.marked⟩
      cases hc
      exact Function.update_self ..
  | schedule coroutine =>
      rw [hd] at ha htally
      cases ha
      refine ⟨fun c => ?_, h.scope, h.removing, nofun, fun c hc => ?_⟩
      · have := htally c
        simp only [CountDownEvent.State.schedules, CountDownEvent.update_succ, DestructorPc.held,
          CountDownEvent.inHand_none] at this ⊢
        omega
      · by_cases hcc : c = coroutine
        · exact h.marking c (by rw [hd, hcc])
        · refine h.marked c (hc.imp_right fun hc => ?_)
          dsimp only at hc
          rwa [Function.update_of_ne hcc] at hc
  | waitTillEmpty | scopeWaitTillEmpty =>
      rw [hd] at ha htally
      cases ha
      split_ifs <;> exact ⟨htally, h.scope, h.removing, by rintro _ ⟨⟩, h.marked⟩

theorem Inv.act {a : Action Thread Co} (h : Inv s) (ha : act chained s a = some s') : Inv s' := by
  cases a with
  | countDown t | countUp t => exact h.begin ha nofun nofun
  | enqueue c t =>
      obtain ⟨-, ha⟩ := Option.ite_none_right_eq_some.mp ha
      exact h.begin ha nofun nofun
  | attach c t =>
      obtain ⟨-, ha⟩ := Option.ite_none_right_eq_some.mp ha
      obtain ⟨s₁, hs₁, rfl⟩ := Option.map_eq_some_iff.mp ha
      exact (h.begin hs₁ nofun nofun).frame rfl rfl rfl rfl rfl
  | cancel c t =>
      obtain ⟨-, ha⟩ := Option.ite_none_right_eq_some.mp ha
      obtain ⟨s₁, hs₁, rfl⟩ := Option.map_eq_some_iff.mp ha
      obtain ⟨hcan, hs₁⟩ := Option.ite_none_right_eq_some.mp hs₁
      obtain ⟨event, hevent, rfl⟩ := Option.map_eq_some_iff.mp hs₁
      have hbegin : ({ s with cancelled := Function.update s.cancelled c true } :
          State Thread Co).begin t (.cancel c t) = some
            { s with event := event, cancelled := Function.update s.cancelled c true } :=
        Option.ite_none_right_eq_some.mpr ⟨hcan, by rw [hevent]; rfl⟩
      refine (h.setCancelled c).begin hbegin nofun fun d u he => ?_
      cases he
      exact Function.update_self ..
  | call t spurious => exact h.callStep ha
  | destroy =>
      obtain ⟨hd, ha⟩ := Option.ite_none_right_eq_some.mp ha
      obtain rfl := Option.some.inj ha
      have htally := h.tally
      rw [hd] at htally
      exact ⟨htally, h.scope, h.removing, nofun, h.marked⟩
  | destructor => exact h.destructorStep ha
  | run c =>
      obtain ⟨-, ha⟩ := Option.ite_none_right_eq_some.mp ha
      obtain rfl := Option.some.inj ha
      exact h.frame rfl rfl rfl rfl rfl

/-- No coroutine is linked after the drain, and when the destructor leaves the scope to
be destroyed, every call in flight is counted in it, without an overflow. -/
def Orderly (s : State Thread Co) : Action Thread Co → Prop
  | .call t _ => s.destructor.isDrained = true → (s.event.call t).links = false
  | .destructor => s.destructor = .scopeWaitTillEmpty → s.scope.isEmpty = true →
      (∀ t, (s.event.call t).isBusy = true → s.scope.inside t = true) ∧ s.scope.entered < 256
  | _ => True

omit [Fintype Thread] [DecidableEq Thread] [DecidableEq Co] in
theorem Clean.observe (h : Clean s) : Clean s.observe := ⟨h.drained, h.returned⟩

omit [Fintype Thread] [DecidableEq Thread] [DecidableEq Co] in
theorem Clean.of_idle (hd : s'.destructor = .idle) : Clean s' :=
  ⟨fun h => (by rw [hd] at h; cases h), fun h => (by rw [hd] at h; cases h)⟩

omit [Fintype Thread] in
theorem begin_idle {a : CountDownEvent.Action Thread Co} (ha : s.begin t a = some s') :
    s'.destructor = .idle := by
  obtain ⟨hcan, ha⟩ := Option.ite_none_right_eq_some.mp ha
  obtain ⟨event, -, rfl⟩ := Option.map_eq_some_iff.mp ha
  exact hcan.2.2

omit [Fintype Thread] in
theorem Clean.callStep {spurious : Bool} (h : Clean s)
    (hlinks : s.destructor.isDrained = true → (s.event.call t).links = false)
    (ha : callStep chained s t spurious = some s') : Clean s' := by
  rw [EventDestructor.callStep] at ha
  have hrefuses : s.destructor = .returned → (s.event.call t).isBusy = false := fun hr =>
    (h.returned hr t).1
  split at ha
  · cases ha
    exact ⟨h.drained, h.returned⟩
  · rename_i hcall hin
    cases ha
    refine ⟨h.drained, fun hr => ?_⟩
    have := hrefuses hr
    rw [hcall] at this
    cases this
  · rename_i hcall hin
    cases ha
    refine ⟨h.drained, fun hr => ?_⟩
    have := hrefuses hr
    rw [hcall] at this
    cases this
  · rename_i hin
    cases ha
    refine ⟨h.drained, fun hr => ?_⟩
    have := (h.returned hr t).2
    rw [hin] at this
    cases this
  · obtain ⟨event, hevent, rfl⟩ := Option.map_eq_some_iff.mp ha
    refine ⟨fun hd => CountDownEvent.callStep_empty (h.drained hd) (hlinks hd) hevent,
      fun hr u => ⟨?_, (h.returned hr u).2⟩⟩
    exact CountDownEvent.callStep_not_busy (hrefuses hr) hevent u (h.returned hr u).1

omit [DecidableEq Thread] in
theorem Clean.destructorStep (h : Clean s) (hi : Inv s)
    (horderly : s.destructor = .scopeWaitTillEmpty → s.scope.isEmpty = true →
      (∀ t, (s.event.call t).isBusy = true → s.scope.inside t = true) ∧ s.scope.entered < 256)
    (ha : destructorStep s s.destructor = some s') : Clean s' := by
  have hdrained := h.drained
  cases hd : s.destructor with
  | idle | returned =>
      rw [hd] at ha
      cases ha
  | dequeue =>
      rw [hd] at ha
      cases hqueue : s.event.waitQueue with
      | nil =>
          simp only [EventDestructor.destructorStep, hqueue, Option.some.injEq] at ha
          subst ha
          exact ⟨fun _ => hqueue, nofun⟩
      | cons coroutine rest =>
          simp only [EventDestructor.destructorStep, hqueue, Option.some.injEq] at ha
          subst ha
          exact ⟨nofun, nofun⟩
  | listCount | setCancelled | schedule =>
      rw [hd] at ha
      cases ha
      exact ⟨nofun, nofun⟩
  | waitTillEmpty =>
      rw [hd] at ha hdrained
      cases ha
      refine ⟨fun _ => hdrained rfl, fun hr => ?_⟩
      dsimp only at hr
      split_ifs at hr
  | scopeWaitTillEmpty =>
      rw [hd] at ha hdrained
      cases ha
      refine ⟨fun _ => hdrained rfl, fun hr t => ?_⟩
      dsimp only at hr
      split_ifs at hr with hscope
      obtain ⟨hbusy, hlt⟩ := horderly hd hscope
      have hout := hi.scope.inside_eq_false hscope hlt t
      refine ⟨?_, hout⟩
      by_contra hn
      have := hbusy t (by simpa using hn)
      rw [hout] at this
      cases this

theorem Clean.act {a : Action Thread Co} (h : Clean s) (hi : Inv s) (hg : Orderly s a)
    (ha : act chained s a = some s') : Clean s' := by
  cases a with
  | countDown t | countUp t => exact .of_idle (begin_idle ha)
  | enqueue c t =>
      exact .of_idle (begin_idle (Option.ite_none_right_eq_some.mp ha).2)
  | attach c t | cancel c t =>
      obtain ⟨-, ha⟩ := Option.ite_none_right_eq_some.mp ha
      obtain ⟨s₁, hs₁, rfl⟩ := Option.map_eq_some_iff.mp ha
      exact .of_idle (begin_idle hs₁ :)
  | call t spurious => exact h.callStep hg ha
  | destroy =>
      obtain ⟨-, ha⟩ := Option.ite_none_right_eq_some.mp ha
      obtain rfl := Option.some.inj ha
      exact ⟨nofun, nofun⟩
  | destructor => exact h.destructorStep hi hg ha
  | run c =>
      obtain ⟨-, ha⟩ := Option.ite_none_right_eq_some.mp ha
      obtain rfl := Option.some.inj ha
      exact ⟨h.drained, h.returned⟩

omit [DecidableEq Thread] in
theorem Clean.settled (h : Clean s) (hi : Inv s) (hr : s.destructor = .returned) : Settled s := by
  have hqueue := h.drained (by rw [hr]; rfl)
  have hscheduled : ∀ c, s.event.enqueues c = s.event.schedules c + s.destructorSchedules c := by
    intro c
    have htally := hi.tally c
    have hhands : ∑ t, (s.event.call t).holding c = 0 := Finset.sum_eq_zero fun t _ => by
      have hbusy := (h.returned hr t).1
      cases hp : s.event.call t <;> first | rfl | (rw [hp] at hbusy; cases hbusy)
    rw [hqueue, hr, hhands] at htally
    exact htally
  refine ⟨hqueue, h.returned hr, hscheduled, fun c hc => ?_⟩
  have := hscheduled c
  have hmarked := hi.marked c
  rw [hc] at hmarked
  have h₁ : s.event.cancelSchedules c = 0 := by
    by_contra hn
    exact Bool.false_ne_true (hmarked (.inl hn))
  have h₂ : s.destructorSchedules c = 0 := by
    by_contra hn
    exact Bool.false_ne_true (hmarked (.inr hn))
  rw [CountDownEvent.State.schedules] at this
  omega

theorem inv_of_reach (chained : Co → Bool) (hs : (system Thread chained).Reach s) : Inv s := by
  refine hs.invariant (I := Inv) ?_ fun s a s' h ha => ?_
  · rintro s ⟨initiallyZero, maxCount, rfl⟩
    refine ⟨fun c => ?_, AsyncScope.counts_empty, nofun, nofun,
      fun c hc => (hc.elim (absurd rfl) (absurd rfl) :)⟩
    have : ∑ t : Thread, ((initial initiallyZero maxCount : State Thread Co).event.call t).holding
        c = 0 := Finset.sum_eq_zero fun _ _ => rfl
    rw [this]
    rfl
  · obtain ⟨s₁, hact, rfl⟩ := Option.map_eq_some_iff.mp ha
    exact (h.act hact).observe

/-- While nothing is linked after the drain and every call in flight is counted in the
scope in the end, nobody is forgotten by the destructor and nobody uses the event after it. -/
theorem destruction_forgets_no_waiter (hs : (system Thread chained).ReachWhile Orderly s)
    (hr : s.destructor = .returned) : Settled s := by
  have h : Inv s ∧ Clean s := by
    refine hs.invariant (I := fun s => Inv s ∧ Clean s) ?_ fun s a s' h hg ha => ?_
    · rintro s ⟨initiallyZero, maxCount, rfl⟩
      exact ⟨inv_of_reach chained (.start ⟨_, _, rfl⟩), .of_idle rfl⟩
    · obtain ⟨s₁, hact, rfl⟩ := Option.map_eq_some_iff.mp ha
      exact ⟨(h.1.act hact).observe, (h.2.act h.1 hg hact).observe⟩
  exact h.2.settled h.1 hr

instance (s : State Thread Co) (a : Action Thread Co) : Decidable (Orderly s a) :=
  match a with
  | .call t _ => inferInstanceAs
      (Decidable (s.destructor.isDrained = true → (s.event.call t).links = false))
  | .destructor => inferInstanceAs (Decidable (s.destructor = .scopeWaitTillEmpty →
      s.scope.isEmpty = true →
      (∀ t, (s.event.call t).isBusy = true → s.scope.inside t = true) ∧ s.scope.entered < 256))
  | .countDown _ | .countUp _ | .enqueue _ _ | .attach _ _ | .cancel _ _ | .destroy | .run _ =>
      inferInstanceAs (Decidable True)

end Steps

theorem destruction_forgets_no_waiter_of_enqueue : ∃ s : State (Fin 2) Unit,
    s.event.enqueues () = 1 ∧ s.event.isZero = false ∧ s.destructor = .returned ∧ Settled s := by
  obtain ⟨s, hs, henqueues, hzero, hr⟩ := StepSystem.Reach.exists_of_exec
    (M := (system (Fin 2) fun _ : Unit => false).restrict Orderly)
    (P := fun s => s.event.enqueues () = 1 ∧ s.event.isZero = false ∧ s.destructor = .returned)
    (.start ⟨false, 1, rfl⟩)
    (.enqueue () 0 :: List.replicate 6 (.call 0 false) ++ .destroy ::
      List.replicate 7 .destructor) (by decide)
  exact ⟨s, henqueues, hzero, hr, destruction_forgets_no_waiter hs.reachWhile hr⟩

/-- A call of `enqueue` that has found the count positive enters the scope and links its
coroutine after the destructor has returned. -/
theorem destruction_forgets_waiter :
    ¬ ∀ s : State (Fin 1) Unit, (system (Fin 1) fun _ : Unit => false).Reach s →
      s.destructor = .returned → Settled s := by
  intro h
  obtain ⟨s, hs, hr, hqueue⟩ := StepSystem.Reach.exists_of_exec
    (M := system (Fin 1) fun _ : Unit => false)
    (P := fun s => s.destructor = .returned ∧ s.event.waitQueue = [()])
    (.start ⟨false, 1, rfl⟩)
    ([.enqueue () 0, .call 0 false, .destroy, .destructor, .destructor, .destructor] ++
      List.replicate 2 (.call 0 false)) (by decide)
  rw [(h s hs hr).unlinked] at hqueue
  cases hqueue

end LevelzAsync.EventDestructor
