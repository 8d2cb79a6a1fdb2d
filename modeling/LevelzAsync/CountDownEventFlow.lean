import LevelzAsync.CountDownEventWaits

/-!
# Where the coroutines of a counting event go

A step of a thread moves coroutines between the wait list, the two hands of the
thread and the pools, and loses or doubles none. Unlike `Waits` this asks nothing
of the state before the step, so it also holds of an event that is being destroyed.
-/

namespace LevelzAsync.CountDownEvent

variable {Thread Co : Type*}

/-- On whose behalf a thread is inside `remove` or schedules after it. -/
def Caller.cancels : Caller Co → Option Co
  | .remove c _ => some c
  | _ => none

namespace Call

def cancels : Call Co → Option Co
  | removeIsZero c | removeCount c | removeDequeue c _ | removeListCount c _ _
  | removeEnqueue c _ _ | removeListCountUp c _ | removeRecheck c _ | cancelSchedule c => some c
  | resumeDequeue caller | resumeListCount _ caller | resumeIsZero _ caller
  | resumeEnqueue _ caller | resumeListCountUp caller | resumeSchedule _ caller
  | resumeRecheck caller => caller.cancels
  | _ => none

end Call

def inHand [DecidableEq Co] (hand : Option Co) (c : Co) : ℕ := if hand = some c then 1 else 0

@[simp] theorem inHand_none [DecidableEq Co] (c : Co) : inHand none c = 0 := rfl

theorem update_succ [DecidableEq Co] (f : Co → ℕ) (a c : Co) :
    Function.update f a (f a + 1) c = f c + inHand (some a) c := by
  by_cases hc : c = a
  · subst hc
    simp [inHand]
  · simp [inHand, hc, Ne.symm hc]

theorem count_concat [DecidableEq Co] (l : List Co) (a c : Co) :
    (l ++ [a]).count c = l.count c + inHand (some a) c := by
  rw [List.count_append, List.count_singleton]
  simp [inHand]

theorem count_cons_inHand [DecidableEq Co] (l : List Co) (a c : Co) :
    (a :: l).count c = l.count c + inHand (some a) c := by
  rw [List.count_cons]
  simp [inHand]

/-- How often the thread has the coroutine in hand. -/
def Call.holding [DecidableEq Co] (p : Call Co) (c : Co) : ℕ :=
  inHand p.resumes c + inHand p.removes c

variable [DecidableEq Thread] [DecidableEq Co] {s s' : State Thread Co} {t : Thread}
  {p q : Call Co}

/-- A step of a thread moves coroutines between the list, its hands and the pools. -/
structure Flow (s s' : State Thread Co) (t : Thread) (p : Call Co) : Prop where
  call : s'.call = Function.update s.call t p
  flow : ∀ c, s'.enqueues c + (s.waitQueue.count c + (s.call t).holding c + s.schedules c) =
    s.enqueues c + (s'.waitQueue.count c + p.holding c + s'.schedules c)
  cancels : p.cancels = none ∨ p.cancels = (s.call t).cancels
  cancelSchedules : ∀ c, s'.cancelSchedules c ≠ s.cancelSchedules c → (s.call t).cancels = some c
  asks : ∀ c, s'.enqueues c + inHand p.asks c = s.enqueues c + inHand (s.call t).asks c ∨
    s.call t = .enqueueIsZero c ∧ s.isZero = true ∧ p = .idle ∧ s'.enqueues = s.enqueues

/-- A step at which nobody begins or ceases to wait. -/
theorem Flow.move (hp : s.call t = q) (hg : Goes s s' t p)
    (hflow : ∀ c, s.waitQueue.count c + q.holding c = s'.waitQueue.count c + p.holding c)
    (hcancels : p.cancels = none ∨ p.cancels = q.cancels) (hasks : p.asks = q.asks) :
    Flow s s' t p where
  call := hg.call
  flow c := by
    rw [hg.enqueues, schedules_eq hg, hp, hflow]
  cancels := hp ▸ hcancels
  cancelSchedules c hc := absurd (congrFun hg.cancelSchedules c) hc
  asks c := .inl (by rw [hg.enqueues, hp, hasks])

theorem Flow.quiet (hp : s.call t = q) (hg : Goes s s' t p) (hqueue : s'.waitQueue = s.waitQueue)
    (hheld : p.resumes = q.resumes ∧ p.removes = q.removes)
    (hcancels : p.cancels = none ∨ p.cancels = q.cancels) (hasks : p.asks = q.asks) :
    Flow s s' t p :=
  .move hp hg (fun c => by rw [hqueue, Call.holding, Call.holding, hheld.1, hheld.2]) hcancels hasks

theorem Flow.returnResume {caller : Caller Co} (hp : s.call t = q) (hresumes : q.resumes = none)
    (hremoves : q.removes = caller.held) (hcancels : q.cancels = caller.cancels)
    (hasks : q.asks = none) :
    ∃ p, Flow s (s.returnResume t caller) t p := by
  cases caller with
  | countDown | enqueue =>
      exact ⟨_, .quiet hp (goes _) rfl ⟨hresumes.symm, hremoves.symm⟩ (.inl rfl) hasks.symm⟩
  | remove c removed =>
      cases removed with
      | false =>
          exact ⟨_, .quiet hp (goes _) rfl ⟨hresumes.symm, hremoves.symm⟩ (.inl rfl) hasks.symm⟩
      | true =>
          exact ⟨_, .quiet hp (goes _) rfl ⟨hresumes.symm, hremoves.symm⟩ (.inr hcancels.symm)
            hasks.symm⟩

theorem callStep_flow {spurious : Bool} (h : callStep s t spurious (s.call t) = some s') :
    ∃ p, Flow s s' t p := by
  cases hp : s.call t with
  | idle =>
      rw [hp] at h
      cases h
  | enqueueIsZero c =>
      rw [hp] at h
      cases h
      split_ifs
      · refine ⟨.idle, rfl, fun d => by rw [hp]; rfl, .inl rfl, fun d hd => absurd rfl hd,
          fun d => ?_⟩
        rw [hp]
        by_cases hd : c = d
        · subst hd
          exact .inr ⟨rfl, ‹_›, rfl, rfl⟩
        · exact .inl (by simp [inHand, Call.asks, State.go, hd])
      · exact ⟨_, .quiet hp (goes _) rfl ⟨rfl, rfl⟩ (.inl rfl) rfl⟩
  | enqueuePush c =>
      rw [hp] at h
      cases h
      refine ⟨_, rfl, fun d => ?_, .inl rfl, fun d hd => absurd rfl hd, fun d => .inl ?_⟩
      all_goals rw [hp]
      · simp only [State.schedules, State.go, count_concat, update_succ, Call.holding,
          Call.resumes, Call.removes, inHand_none]
        omega
      · simp only [update_succ, Call.asks, inHand_none]
        rfl
  | resumeSchedule node caller =>
      rw [hp] at h
      cases h
      refine ⟨_, rfl, fun d => ?_, .inr (by rw [hp]; rfl), fun d hd => absurd rfl hd,
        fun d => .inl (by rw [hp]; rfl)⟩
      rw [hp]
      simp only [State.schedules, State.go, update_succ, Call.holding, Call.resumes, Call.removes,
        inHand_none]
      omega
  | cancelSchedule c =>
      rw [hp] at h
      cases h
      refine ⟨_, rfl, fun d => ?_, .inl rfl, fun d hd => ?_, fun d => .inl (by rw [hp]; rfl)⟩
      · rw [hp]
        simp only [State.schedules, State.go, update_succ, Call.holding, Call.resumes, Call.removes,
          inHand_none]
        omega
      · rw [hp]
        by_contra hne
        exact hd (Function.update_of_ne (fun he => hne (by rw [he]; rfl)) ..)
  | resumeDequeue caller =>
      rw [hp] at h
      cases hqueue : s.waitQueue with
      | nil =>
          simp only [CountDownEvent.callStep, hqueue] at h
          cases h
          exact Flow.returnResume hp rfl rfl rfl rfl
      | cons node rest =>
          simp only [CountDownEvent.callStep, hqueue] at h
          cases h
          refine ⟨.resumeListCount node caller, .move hp ⟨rfl, rfl, rfl, rfl, rfl⟩
            (fun c => ?_) (.inr rfl) rfl⟩
          simp only [hqueue, count_cons_inHand, Call.holding, Call.resumes, Call.removes,
            inHand_none]
          omega
  | resumeEnqueue node caller =>
      rw [hp] at h
      cases h
      refine ⟨.resumeListCountUp caller, .move hp ⟨rfl, rfl, rfl, rfl, rfl⟩
        (fun c => ?_) (.inr rfl) rfl⟩
      simp only [count_concat, Call.holding, Call.resumes, Call.removes, inHand_none]
      omega
  | resumeRecheck caller =>
      rw [hp] at h
      cases h
      split_ifs
      · exact ⟨_, .quiet hp (goes _) rfl ⟨rfl, rfl⟩ (.inr rfl) rfl⟩
      · exact Flow.returnResume hp rfl rfl rfl rfl
  | removeDequeue c left =>
      rw [hp] at h
      simp only [CountDownEvent.callStep] at h
      split at h
      · rename_i left node rest hqueue
        cases h
        refine ⟨.removeListCount c node left, .move hp ⟨rfl, rfl, rfl, rfl, rfl⟩
          (fun d => ?_) (.inr rfl) rfl⟩
        simp only [hqueue, count_cons_inHand, Call.holding, Call.resumes, Call.removes,
          inHand_none]
        omega
      · cases h
        exact ⟨_, .quiet hp (goes _) rfl ⟨rfl, rfl⟩ (.inr rfl) rfl⟩
  | removeListCount c node left =>
      rw [hp] at h
      cases h
      split_ifs with hnode
      · subst hnode
        exact ⟨_, .quiet hp ⟨rfl, rfl, rfl, rfl, rfl⟩ rfl ⟨rfl, rfl⟩ (.inr rfl) rfl⟩
      · exact ⟨_, .quiet hp ⟨rfl, rfl, rfl, rfl, rfl⟩ rfl ⟨rfl, rfl⟩ (.inr rfl) rfl⟩
  | removeEnqueue c node left =>
      rw [hp] at h
      cases h
      refine ⟨.removeListCountUp c left, .move hp ⟨rfl, rfl, rfl, rfl, rfl⟩
        (fun d => ?_) (.inr rfl) rfl⟩
      simp only [count_concat, Call.holding, Call.resumes, Call.removes, inHand_none]
      omega
  | removeRecheck c removed =>
      rw [hp] at h
      cases h
      cases removed <;> split_ifs <;> exact ⟨_, .quiet hp (goes _) rfl ⟨rfl, rfl⟩
        (by first | exact .inr rfl | exact .inl rfl) rfl⟩
  | countDownCas | countUpCas | enqueueRecheck | removeIsZero | resumeIsZero =>
      rw [hp] at h
      cases h
      split_ifs <;> exact ⟨_, .quiet hp ⟨rfl, rfl, rfl, rfl, rfl⟩ rfl ⟨rfl, rfl⟩
        (by first | exact .inr rfl | exact .inl rfl) rfl⟩
  | _ =>
      rw [hp] at h
      cases h
      exact ⟨_, .quiet hp ⟨rfl, rfl, rfl, rfl, rfl⟩ rfl ⟨rfl, rfl⟩ (.inr rfl) rfl⟩

/-- The first step of the call that the action begins. -/
def Action.begins : Action Thread Co → Call Co
  | .countDown _ => .countDownLoad
  | .countUp _ => .countUpLoad
  | .enqueue c _ => .enqueueIsZero c
  | .cancel c _ => .removeIsZero c
  | .call _ _ => .idle

def Action.thread : Action Thread Co → Thread
  | .countDown t | .countUp t | .enqueue _ t | .cancel _ t | .call t _ => t

structure Begins (s s' : State Thread Co) (t : Thread) (p : Call Co) : Prop where
  idle : s.call t = .idle
  call : s'.call = Function.update s.call t p
  count : s'.count = s.count
  waitQueue : s'.waitQueue = s.waitQueue
  enqueues : s'.enqueues = s.enqueues
  eventSchedules : s'.eventSchedules = s.eventSchedules
  cancelSchedules : s'.cancelSchedules = s.cancelSchedules

theorem step_begins {a : Action Thread Co} (h : step s a = some s')
    (hstart : ∀ t spurious, a ≠ .call t spurious) : Begins s s' a.thread a.begins := by
  cases a with
  | countDown t | countUp t | cancel _ t =>
      obtain ⟨hidle, he⟩ := Option.ite_none_right_eq_some.mp h
      cases he
      exact ⟨hidle, rfl, rfl, rfl, rfl, rfl, rfl⟩
  | enqueue c t =>
      obtain ⟨⟨hidle, -⟩, he⟩ := Option.ite_none_right_eq_some.mp h
      cases he
      exact ⟨hidle, rfl, rfl, rfl, rfl, rfl, rfl⟩
  | call t spurious => exact absurd rfl (hstart t spurious)

def Call.isBusy : Call Co → Bool
  | idle | countUpLoad | countUpCas _ => false
  | _ => true

def Call.links : Call Co → Bool
  | enqueuePush _ | resumeEnqueue _ _ | removeEnqueue _ _ _ => true
  | _ => false

theorem callStep_not_busy {spurious : Bool} (hp : (s.call t).isBusy = false)
    (h : callStep s t spurious (s.call t) = some s') (u : Thread) (hu : (s.call u).isBusy = false) :
    (s'.call u).isBusy = false := by
  have hgo : ∀ p : Call Co, p.isBusy = false →
      (Function.update s.call t p u).isBusy = false := fun p hp => by
    rw [Function.update_apply]
    split_ifs
    · exact hp
    · exact hu
  cases hcall : s.call t with
  | idle =>
      rw [hcall] at h
      cases h
  | countUpLoad =>
      rw [hcall] at h
      cases h
      exact hgo _ rfl
  | countUpCas prevCount =>
      rw [hcall] at h
      cases h
      split_ifs <;> exact hgo _ rfl
  | _ =>
      rw [hcall] at hp
      cases hp

theorem callStep_empty {spurious : Bool} (hqueue : s.waitQueue = [])
    (hlinks : (s.call t).links = false) (h : callStep s t spurious (s.call t) = some s') :
    s'.waitQueue = [] := by
  have hreturn : ∀ caller, (s.returnResume t caller).waitQueue = [] := fun caller => by
    cases caller <;> exact hqueue
  cases hp : s.call t with
  | idle =>
      rw [hp] at h
      cases h
  | enqueuePush | resumeEnqueue | removeEnqueue =>
      rw [hp] at hlinks
      cases hlinks
  | resumeDequeue caller =>
      rw [hp] at h
      simp only [callStep, hqueue] at h
      cases h
      exact hreturn caller
  | resumeRecheck caller =>
      rw [hp] at h
      cases h
      split_ifs
      · exact hqueue
      · exact hreturn caller
  | removeDequeue c left =>
      rw [hp] at h
      cases left <;>
      · simp only [callStep, hqueue] at h
        cases h
        exact hqueue
  | countDownCas | countUpCas | enqueueIsZero | enqueueRecheck | resumeIsZero | removeIsZero
  | removeRecheck =>
      rw [hp] at h
      cases h
      split_ifs <;> exact hqueue
  | _ =>
      rw [hp] at h
      cases h
      exact hqueue

end LevelzAsync.CountDownEvent
