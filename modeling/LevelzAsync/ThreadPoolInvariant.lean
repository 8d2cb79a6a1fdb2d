import LevelzAsync.Custody
import LevelzAsync.ThreadPoolSteps

/-!
# Counters, queues and hands of a pool

`m_mayBeSleepingThreadCount` and `m_sleepingThreadCount` count the workers between the
two steps that change them. A coroutine that was scheduled is in one queue or in the
hand of one worker until it is resumed. The effect of a step touches only events and
local queues of the workers, so what holds of each worker carries over to the state.
-/

namespace LevelzAsync.ThreadPool

variable {n : ℕ} {O C : Type*}

def State.queue (s : State n O C) : Option (Fin n) → List C
  | none => s.globalQueue
  | some w => (s.worker w).localQueue

def State.hand (s : State n O C) (w : Fin n) : Option C := (s.worker w).hand

structure Inv (s : State n O C) : Prop where
  fits : ∀ w, (s.worker w).Fits
  mayBeSleeping : s.mayBeSleepingThreadCount = ∑ w, (s.worker w).counted.toNat
  sleeping : s.sleepingThreadCount = ∑ w, (s.worker w).asleep.toNat
  ledger : Ledger s.queue s.hand s.scheduled s.resumed

/-- What an effect leaves of the record of the worker `u`. -/
structure Applied (e : Effect n C) (u : Fin n) (k k' : Worker n C) : Prop where
  pc : k'.pc = k.pc
  hand : k'.hand = k.hand
  running : k'.running = k.running
  isSleeping : k'.isSleeping = k.isSleeping
  event : k'.wakeUpEvent = k.wakeUpEvent ∨ k'.wakeUpEvent = .set
  localQueue : (k.localQueue = [] → k'.localQueue = []) ∨ ∃ c, e = .localEnqueue u c

section Applied

variable {s : State n O C} {e : Effect n C} {u : Fin n} {k k' : Worker n C}

theorem Applied.refl : Applied e u k k :=
  ⟨rfl, rfl, rfl, rfl, .inl rfl, .inl id⟩

theorem Facts.congr {pc : Pc n} (h : pc.Facts k) (hhand : k'.hand = k.hand)
    (hrunning : k'.running = k.running) (hsleep : k'.isSleeping = k.isSleeping)
    (hlocal : k.localQueue = [] → k'.localQueue = []) : pc.Facts k' := by
  unfold Pc.Facts at h ⊢
  split at h <;> simp_all [Worker.Free]

theorem Applied.fits (h : Applied e u k k') (hfits : k.Fits)
    (henqueue : ∀ c, e = .localEnqueue u c → ∃ pc, k.pc = .wake pc) : k'.Fits := by
  unfold Worker.Fits at hfits ⊢
  rw [h.pc]
  rcases h.localQueue with hlocal | ⟨c, hc⟩
  · exact Facts.congr hfits h.hand h.running h.isSleeping hlocal
  · obtain ⟨pc, hpc⟩ := henqueue c hc
    rw [hpc] at hfits ⊢
    exact h.isSleeping.trans hfits

theorem Applied.counted (h : Applied e u k k') : k'.counted = k.counted := by
  unfold Worker.counted
  rw [h.pc, h.isSleeping]

theorem Applied.asleep (h : Applied e u k k') : k'.asleep = k.asleep := by
  unfold Worker.asleep
  rw [h.pc]

theorem Applied.settled (h : Applied e u k k') : k'.settled = k.settled := by
  unfold Worker.settled
  rw [h.pc, h.isSleeping]

theorem Applied.cold (h : Applied e u k k') (hcold : k'.cold = true) : k.cold = true := by
  have hevent := event_of_cold hcold
  have hpc := (of_decide_eq_true (Bool.and_eq_true_iff.mp hcold).2).2
  rw [h.pc] at hpc
  refine cold_of_settled (h.settled ▸ cold_settled hcold) ?_ hpc
  rcases h.event with hsame | hset
  · rwa [← hsame]
  · exact absurd hset hevent

variable [DecidableEq C]

theorem apply_worker (s : State n O C) (e : Effect n C) (u : Fin n) :
    Applied e u (s.worker u) ((s.apply e).worker u) := by
  cases e with
  | setEvent i =>
      change Applied _ u _ (Function.update s.worker i _ u)
      by_cases hu : u = i
      · subst hu
        rw [Function.update_self]
        exact ⟨rfl, rfl, rfl, rfl, .inr rfl, .inl id⟩
      · rw [Function.update_of_ne hu]
        exact .refl
  | takeLocal v c =>
      change Applied _ u _ (Function.update s.worker v _ u)
      by_cases hu : u = v
      · subst hu
        rw [Function.update_self]
        refine ⟨rfl, rfl, rfl, rfl, .inl rfl, .inl fun h => ?_⟩
        exact (congrArg List.tail h).trans rfl
      · rw [Function.update_of_ne hu]
        exact .refl
  | mayBeSleeping up | sleeping up =>
      cases up with
      | true => exact .refl
      | false => exact .refl
  | localEnqueue v c =>
      change Applied _ u _ (Function.update s.worker v _ u)
      by_cases hu : u = v
      · subst hu
        rw [Function.update_self]
        exact ⟨rfl, rfl, rfl, rfl, .inl rfl, .inr ⟨c, rfl⟩⟩
      · rw [Function.update_of_ne hu]
        exact .refl
  | _ => exact .refl

theorem apply_hand : (s.apply e).hand = s.hand :=
  funext fun u => (apply_worker s e u).hand

theorem apply_outside : (s.apply e).outside = s.outside := by
  cases e with
  | mayBeSleeping up | sleeping up =>
      cases up with
      | true => rfl
      | false => rfl
  | _ => rfl

end Applied

section Counts

variable {s : State n O C} {w : Fin n} {k : Worker n C} {e : Effect n C}

theorem setWorker_same : (s.setWorker w k).worker w = k := Function.update_self ..

theorem setWorker_other {u : Fin n} (hu : u ≠ w) : (s.setWorker w k).worker u = s.worker u :=
  Function.update_of_ne hu ..

variable [DecidableEq C]

/-- The counters change with the worker that makes the step. -/
theorem Inv.counts (h : Inv s) (hm : Moves s w (s.worker w) k e) :
    ((s.setWorker w k).apply e).mayBeSleepingThreadCount =
        ∑ u, (((s.setWorker w k).apply e).worker u).counted.toNat ∧
      ((s.setWorker w k).apply e).sleepingThreadCount =
        ∑ u, (((s.setWorker w k).apply e).worker u).asleep.toNat := by
  have hcounted := sum_update_tally s.worker (fun k => k.counted.toNat) w k
  have hasleep := sum_update_tally s.worker (fun k => k.asleep.toNat) w k
  have hle := le_sum_tally s.worker (fun k => k.counted.toNat) w
  have hle' := le_sum_tally s.worker (fun k => k.asleep.toNat) w
  rw [← h.mayBeSleeping] at hcounted hle
  rw [← h.sleeping] at hasleep hle'
  have hsum : ∑ u, (((s.setWorker w k).apply e).worker u).counted.toNat =
      ∑ u, (Function.update s.worker w k u).counted.toNat :=
    Finset.sum_congr rfl fun u _ =>
      congrArg Bool.toNat (apply_worker (s.setWorker w k) e u).counted
  have hsum' : ∑ u, (((s.setWorker w k).apply e).worker u).asleep.toNat =
      ∑ u, (Function.update s.worker w k u).asleep.toNat :=
    Finset.sum_congr rfl fun u _ =>
      congrArg Bool.toNat (apply_worker (s.setWorker w k) e u).asleep
  have hmayBe := hm.counted
  have hsleeping := hm.asleep
  rw [hsum, hsum']
  cases e with
  | mayBeSleeping up =>
      rw [show k.asleep = (s.worker w).asleep from hsleeping] at hasleep
      cases up with
      | true =>
          rw [hmayBe.1, hmayBe.2] at hcounted
          refine ⟨?_, (Nat.add_right_cancel hasleep).symm⟩
          change s.mayBeSleepingThreadCount + 1 = _
          simp only [Bool.toNat_false, Bool.toNat_true] at hcounted
          omega
      | false =>
          rw [hmayBe.1, hmayBe.2] at hcounted
          refine ⟨?_, (Nat.add_right_cancel hasleep).symm⟩
          change s.mayBeSleepingThreadCount - 1 = _
          simp only [Bool.toNat_false, Bool.toNat_true] at hcounted
          omega
  | sleeping up =>
      rw [show k.counted = (s.worker w).counted from hmayBe] at hcounted
      cases up with
      | true =>
          rw [hsleeping.1, hsleeping.2] at hasleep
          refine ⟨(Nat.add_right_cancel hcounted).symm, ?_⟩
          change s.sleepingThreadCount + 1 = _
          simp only [Bool.toNat_false, Bool.toNat_true] at hasleep
          omega
      | false =>
          rw [hsleeping.1, hsleeping.2] at hasleep
          refine ⟨(Nat.add_right_cancel hcounted).symm, ?_⟩
          change s.sleepingThreadCount - 1 = _
          simp only [Bool.toNat_false, Bool.toNat_true] at hasleep
          omega
  | _ =>
      rw [show k.counted = (s.worker w).counted from hmayBe] at hcounted
      rw [show k.asleep = (s.worker w).asleep from hsleeping] at hasleep
      exact ⟨(Nat.add_right_cancel hcounted).symm, (Nat.add_right_cancel hasleep).symm⟩

end Counts

section Queues

variable {s s' : State n O C} {w : Fin n} {k : Worker n C} {e : Effect n C}

theorem queue_setWorker (hlocal : k.localQueue = (s.worker w).localQueue) :
    (s.setWorker w k).queue = s.queue := by
  funext key
  cases key with
  | none => rfl
  | some u =>
      change ((s.setWorker w k).worker u).localQueue = (s.worker u).localQueue
      by_cases hu : u = w
      · subst hu
        rw [setWorker_same, hlocal]
      · rw [setWorker_other hu]

theorem queue_setLocalQueue (v : Fin n) (q : List C) :
    (s.setLocalQueue v q).queue = Function.update s.queue (some v) q := by
  funext key
  cases key with
  | none => rfl
  | some u =>
      change ((s.setLocalQueue v q).worker u).localQueue = _
      by_cases hu : u = v
      · subst hu
        rw [Function.update_self]
        unfold State.setLocalQueue
        rw [setWorker_same]
      · rw [Function.update_of_ne fun h => hu (Option.some.inj h)]
        unfold State.setLocalQueue
        rw [setWorker_other hu]
        rfl

theorem queue_setGlobalQueue (q : List C) :
    State.queue { s with globalQueue := q } = Function.update s.queue none q := by
  funext key
  cases key with
  | none => rfl
  | some u => rfl

theorem hand_setWorker (u : Fin n) :
    (s.setWorker w k).hand u = if u = w then k.hand else s.hand u := by
  unfold State.hand
  split_ifs with hu
  · rw [hu, setWorker_same]
  · rw [setWorker_other hu]

/-- The effects that leave the queues as they are. -/
def Effect.keepsQueues : Effect n C → Bool
  | .takeGlobal _ | .takeLocal _ _ | .globalEnqueue _ | .localEnqueue _ _ | .resume _ => false
  | _ => true

theorem keepsQueues_of_wakes (he : e.wakes = true) : e.keepsQueues = true := by
  cases e with
  | quiet | pending count | setEvent i => rfl
  | _ => cases he

theorem hand_of_keepsQueues {k' : Worker n C} (he : e.keepsQueues = true)
    (h : e.Hands s w k k') : k'.hand = k.hand := by
  cases e with
  | takeGlobal c | takeLocal v c | globalEnqueue c | localEnqueue v c | resume c => cases he
  | _ => exact h.1

variable [DecidableEq C]

theorem apply_of_keepsQueues (he : e.keepsQueues = true) :
    (s.apply e).queue = s.queue ∧ (s.apply e).scheduled = s.scheduled ∧
      (s.apply e).resumed = s.resumed ∧ (s.apply e).globalQueue = s.globalQueue := by
  cases e with
  | setEvent i => exact ⟨queue_setWorker rfl, rfl, rfl, rfl⟩
  | mayBeSleeping up | sleeping up =>
      cases up with
      | true => exact ⟨rfl, rfl, rfl, rfl⟩
      | false => exact ⟨rfl, rfl, rfl, rfl⟩
  | quiet | pending count => exact ⟨rfl, rfl, rfl, rfl⟩
  | _ => cases he

/-- A step of a worker moves at most one coroutine, along the queues and its hand. -/
theorem Inv.ledgerStep (h : Inv s) (hm : Moves s w (s.worker w) k e) :
    Ledger ((s.setWorker w k).apply e).queue ((s.setWorker w k).apply e).hand
      ((s.setWorker w k).apply e).scheduled ((s.setWorker w k).apply e).resumed := by
  have hqueue : (s.setWorker w k).queue = s.queue := queue_setWorker hm.localQueue
  have hother : ∀ u, u ≠ w → (s.setWorker w k).hand u = s.hand u := fun u hu => by
    rw [hand_setWorker, if_neg hu]
  have hself : (s.setWorker w k).hand w = k.hand := by
    rw [hand_setWorker, if_pos rfl]
  have hsame : k.hand = (s.worker w).hand → ∀ u, (s.setWorker w k).hand u = s.hand u := by
    intro hk u
    by_cases hu : u = w
    · rw [hu, hself, hk]
      rfl
    · exact hother u hu
  have hhands := hm.hands
  rw [apply_hand]
  by_cases hkeeps : e.keepsQueues = true
  · obtain ⟨hq, hscheduled, hresumed, -⟩ := apply_of_keepsQueues (s := s.setWorker w k) hkeeps
    rw [hq, hscheduled, hresumed, hqueue]
    exact h.ledger.congr (fun _ => rfl) (hsame (hand_of_keepsQueues hkeeps hhands))
      (fun _ => rfl) fun _ => rfl
  cases e with
  | takeGlobal c =>
      obtain ⟨⟨q, hq⟩, hnone, hsome, -⟩ := hhands
      have hafter : ((s.setWorker w k).apply (.takeGlobal c)).queue =
          Function.update s.queue none q := by
        rw [← hqueue]
        refine (queue_setGlobalQueue _).trans (congrArg _ ?_)
        exact congrArg List.tail hq
      rw [hafter]
      exact h.ledger.take (k := none) (h := w) hq (Function.update_self ..)
        (fun j hj => Function.update_of_ne hj ..) hnone (hself.trans hsome) hother (fun _ => rfl)
        fun _ => rfl
  | takeLocal v c =>
      obtain ⟨⟨q, hq⟩, hnone, hsome, -⟩ := hhands
      have hafter : ((s.setWorker w k).apply (.takeLocal v c)).queue =
          Function.update s.queue (some v) q := by
        rw [← hqueue]
        refine (queue_setLocalQueue v _).trans (congrArg _ ?_)
        exact congrArg List.tail ((congrFun hqueue (some v)).trans hq)
      rw [hafter]
      exact h.ledger.take (k := some v) (h := w) hq (Function.update_self ..)
        (fun j hj => Function.update_of_ne hj ..) hnone (hself.trans hsome) hother (fun _ => rfl)
        fun _ => rfl
  | globalEnqueue c =>
      obtain ⟨hc, hhand, -⟩ := hhands
      have hafter : ((s.setWorker w k).apply (.globalEnqueue c)).queue =
          Function.update s.queue none (s.queue none ++ [c]) := by
        rw [← hqueue]
        exact queue_setGlobalQueue _
      rw [hafter]
      exact h.ledger.enter (h.ledger.not_inCustody hc) (Function.update_self ..)
        (fun j hj => Function.update_of_ne hj ..) (hsame hhand) (Function.update_self ..)
        (fun d hd => Function.update_of_ne hd ..) fun _ => rfl
  | localEnqueue v c =>
      obtain ⟨rfl, hc, hhand, -⟩ := hhands
      have hafter : ((s.setWorker v k).apply (.localEnqueue v c)).queue =
          Function.update s.queue (some v) (s.queue (some v) ++ [c]) := by
        rw [← hqueue]
        exact queue_setLocalQueue (s := s.setWorker v k) v
          (((s.setWorker v k).worker v).localQueue ++ [c])
      rw [hafter]
      exact h.ledger.enter (h.ledger.not_inCustody hc) (Function.update_self ..)
        (fun j hj => Function.update_of_ne hj ..) (hsame hhand) (Function.update_self ..)
        (fun d hd => Function.update_of_ne hd ..) fun _ => rfl
  | resume c =>
      obtain ⟨hsome, hnone, -⟩ := hhands
      exact h.ledger.release (h := w) hsome (fun key => congrFun hqueue key) (hself.trans hnone)
        hother (fun _ => rfl) (Function.update_self ..) fun d hd => Function.update_of_ne hd ..
  | _ => exact absurd rfl hkeeps

theorem Inv.worker (h : Inv s) (hm : Moves s w (s.worker w) k e) :
    Inv ((s.setWorker w k).apply e) := by
  refine ⟨fun u => ?_, (h.counts hm).1, (h.counts hm).2, h.ledgerStep hm⟩
  apply (apply_worker (s.setWorker w k) e u).fits
  · by_cases hu : u = w
    · rw [hu, setWorker_same]
      exact hm.fits
    · rw [setWorker_other hu]
      exact h.fits u
  · rintro c rfl
    obtain ⟨hu, -, -, -, hpc⟩ := hm.hands
    rw [hu, setWorker_same]
    exact ⟨_, hpc⟩

theorem Inv.applyWakes (h : Inv s) (he : e.wakes = true) : Inv (s.apply e) := by
  obtain ⟨hqueue, hscheduled, hresumed, -⟩ := apply_of_keepsQueues (s := s)
    (keepsQueues_of_wakes he)
  refine ⟨fun u => ?_, ?_, ?_, ?_⟩
  · refine (apply_worker s e u).fits (h.fits u) fun c hc => ?_
    rw [hc] at he
    cases he
  · rw [Finset.sum_congr rfl fun u _ => congrArg Bool.toNat (apply_worker s e u).counted,
      ← h.mayBeSleeping]
    cases e with
    | quiet | pending count | setEvent i => rfl
    | _ => cases he
  · rw [Finset.sum_congr rfl fun u _ => congrArg Bool.toNat (apply_worker s e u).asleep,
      ← h.sleeping]
    cases e with
    | quiet | pending count | setEvent i => rfl
    | _ => cases he
  · rw [hqueue, apply_hand, hscheduled, hresumed]
    exact h.ledger

theorem Inv.applyEnqueue {c : C} (h : Inv s) (hc : s.scheduled c = s.resumed c) :
    Inv (s.apply (.globalEnqueue c)) := by
  refine ⟨h.fits, h.mayBeSleeping, h.sleeping, ?_⟩
  have hafter : (s.apply (.globalEnqueue c)).queue =
      Function.update s.queue none (s.queue none ++ [c]) := queue_setGlobalQueue _
  rw [hafter]
  exact h.ledger.enter (h.ledger.not_inCustody hc) (Function.update_self ..)
    (fun j hj => Function.update_of_ne hj ..) (fun _ => rfl) (Function.update_self ..)
    (fun d hd => Function.update_of_ne hd ..) fun _ => rfl

end Queues

section Attended

/-- If a coroutine is in the global queue, some worker is not at a point of the kind
`P`. For a kind of points that workers come to by finding the queue empty, this stays
so whatever the workers do. -/
def State.Attended (s : State n O C) (P : Worker n C → Bool) : Prop :=
  s.globalQueue = [] ∨ ∃ w, P (s.worker w) = false

variable {s s' : State n O C} {P : Worker n C → Bool} {w : Fin n} {k : Worker n C}
  {e : Effect n C}

theorem State.Attended.congr (h : s.Attended P) (hworker : s'.worker = s.worker)
    (hglobal : s'.globalQueue = s.globalQueue) : s'.Attended P := by
  unfold State.Attended
  rw [hworker, hglobal]
  exact h

variable [DecidableEq C]

theorem State.Attended.applyWakes (h : s.Attended P)
    (hP : ∀ e u (k k' : Worker n C), Applied e u k k' → P k' = P k) (he : e.wakes = true) :
    (s.apply e).Attended P := by
  rcases h with hempty | ⟨w, hw⟩
  · exact .inl ((apply_of_keepsQueues (keepsQueues_of_wakes he)).2.2.2.trans hempty)
  · exact .inr ⟨w, (hP _ _ _ _ (apply_worker s e w)).trans hw⟩

theorem State.Attended.worker (h : s.Attended P)
    (hP : ∀ e u (k k' : Worker n C), Applied e u k k' → P k' = P k)
    (henters : Enters s e (P (s.worker w)) (P k)) : ((s.setWorker w k).apply e).Attended P := by
  have hpoint : ∀ u, P (((s.setWorker w k).apply e).worker u) = P ((s.setWorker w k).worker u) :=
    fun u => hP _ _ _ _ (apply_worker (s.setWorker w k) e u)
  cases hk : P k with
  | false =>
      refine .inr ⟨w, ?_⟩
      rw [hpoint, setWorker_same, hk]
  | true =>
      have hkeeps : e.keepsQueues = true := by
        rcases henters hk with ⟨rfl, -⟩ | ⟨-, rfl | rfl⟩ <;> rfl
      have hglobal : ((s.setWorker w k).apply e).globalQueue = s.globalQueue :=
        (apply_of_keepsQueues hkeeps).2.2.2
      rcases henters hk with ⟨-, hempty⟩ | ⟨hw, -⟩
      · exact .inl (hglobal.trans hempty)
      · rcases h with hempty | ⟨u, hu⟩
        · exact .inl (hglobal.trans hempty)
        · refine .inr ⟨u, ?_⟩
          have hne : u ≠ w := by
            rintro rfl
            rw [hw] at hu
            cases hu
          rw [hpoint, setWorker_other hne, hu]

end Attended

section Runs

variable {s s' : State n O C}

/-- The states differ in the callers, in `m_state` and in `shutdown` only. -/
structure SameWork (s s' : State n O C) : Prop where
  worker : s'.worker = s.worker
  globalQueue : s'.globalQueue = s.globalQueue
  mayBeSleeping : s'.mayBeSleepingThreadCount = s.mayBeSleepingThreadCount
  sleeping : s'.sleepingThreadCount = s.sleepingThreadCount
  scheduled : s'.scheduled = s.scheduled
  resumed : s'.resumed = s.resumed

theorem SameWork.queue (h : SameWork s s') : s'.queue = s.queue := by
  funext key
  unfold State.queue
  rw [h.worker, h.globalQueue]

theorem SameWork.hand (h : SameWork s s') : s'.hand = s.hand := by
  funext u
  unfold State.hand
  rw [h.worker]

theorem Inv.congr (h : Inv s) (hs : SameWork s s') : Inv s' := by
  refine ⟨fun w => ?_, ?_, ?_, ?_⟩
  · rw [hs.worker]
    exact h.fits w
  · rw [hs.mayBeSleeping, hs.worker]
    exact h.mayBeSleeping
  · rw [hs.sleeping, hs.worker]
    exact h.sleeping
  · rw [hs.queue, hs.hand, hs.scheduled, hs.resumed]
    exact h.ledger

theorem inv_newPool : Inv (newPool : State n O C) := by
  refine ⟨fun w => ⟨rfl, rfl⟩, ?_, ?_, .of_empty (fun key => ?_) (fun _ => rfl) fun _ => rfl⟩
  · exact (Finset.sum_eq_zero fun w _ => rfl).symm
  · exact (Finset.sum_eq_zero fun w _ => rfl).symm
  · cases key with
    | none => rfl
    | some w => rfl

variable [DecidableEq C]

/-- `shutdown` sets events, and reads what it does not change. -/
theorem closerStep_cases {pc : Closer n} (hs : closerStep s pc = some s') :
    ∃ e : Effect n C, e.wakes = true ∧ SameWork (s.apply e) s' ∧ s'.outside = s.outside := by
  unfold closerStep at hs
  cases pc with
  | notCalled | returned => cases hs
  | checkSleeping i =>
      refine ⟨.quiet, rfl, ?_⟩
      dsimp only at hs
      split_ifs at hs
      · cases hs
        exact ⟨⟨rfl, rfl, rfl, rfl, rfl, rfl⟩, rfl⟩
      · cases hs
        exact ⟨⟨rfl, rfl, rfl, rfl, rfl, rfl⟩, rfl⟩
      · cases hs
        exact ⟨⟨rfl, rfl, rfl, rfl, rfl, rfl⟩, rfl⟩
  | setEvent i =>
      cases hs
      exact ⟨.setEvent i, rfl, ⟨rfl, rfl, rfl, rfl, rfl, rfl⟩, rfl⟩

variable [DecidableEq O] {cfg : Config n O}

/-- A step is one of a worker, or a call from outside begins, or nothing but events and
pending requests changes in what the workers share. -/
theorem step_cases {a : Action n O C} (hs : step cfg s a = some s') :
    (∃ w choice k e, a = .worker w choice ∧ workerStep cfg s w choice = some (k, e) ∧
      s' = (s.setWorker w k).apply e) ∨
    (∃ o c, a = .schedule o c ∧ s.scheduled c = s.resumed c ∧
      s' = (s.setCaller o (some .chooseImmediate)).apply (.globalEnqueue c)) ∨
    ∃ e : Effect n C, e.wakes = true ∧ SameWork (s.apply e) s' := by
  cases a with
  | worker w choice =>
      obtain ⟨⟨k, e⟩, hk, rfl⟩ := Option.map_eq_some_iff.mp hs
      exact .inl ⟨w, choice, k, e, rfl, hk, rfl⟩
  | schedule o c =>
      obtain ⟨⟨-, hc⟩, he⟩ := Option.ite_none_right_eq_some.mp hs
      cases he
      exact .inr (.inl ⟨o, c, rfl, hc, rfl⟩)
  | caller o b =>
      obtain ⟨pc, -, rfl⟩ := Option.map_eq_some_iff.mp hs
      have hwakes := wakeStep_wakes (s := s) cfg (.foreign (cfg.currentThreadPool o)) b pc
      generalize wakeStep cfg s (.foreign (cfg.currentThreadPool o)) b pc = next at hwakes ⊢
      obtain ⟨pc', e⟩ := next
      refine .inr (.inr ⟨e, hwakes, ?_⟩)
      cases e with
      | quiet | pending count | setEvent i => exact ⟨rfl, rfl, rfl, rfl, rfl, rfl⟩
      | _ => cases hwakes
  | shutdown immediately =>
      obtain ⟨-, he⟩ := Option.ite_none_right_eq_some.mp hs
      cases he
      exact .inr (.inr ⟨.quiet, rfl, rfl, rfl, rfl, rfl, rfl, rfl⟩)
  | closer =>
      obtain ⟨e, he, hsame, -⟩ := closerStep_cases hs
      exact .inr (.inr ⟨e, he, hsame⟩)

theorem Inv.step {a : Action n O C} (h : Inv s) (hs : step cfg s a = some s') : Inv s' := by
  rcases step_cases hs with ⟨w, choice, k, e, -, hk, rfl⟩ | ⟨o, c, -, hc, rfl⟩ | ⟨e, he, hsame⟩
  · exact h.worker (workerStep_moves (h.fits w) hk)
  · have hcaller : Inv (s.setCaller o (some .chooseImmediate)) :=
      h.congr ⟨rfl, rfl, rfl, rfl, rfl, rfl⟩
    exact hcaller.applyEnqueue hc
  · exact (h.applyWakes he).congr hsame

theorem inv_of_reach (hs : (system cfg C).Reach s) : Inv s := by
  refine StepSystem.Reach.invariant (fun s hstart => ?_) (fun s a s' hi ha => hi.step ha) hs
  obtain rfl : s = newPool := hstart
  exact inv_newPool

end Runs

end LevelzAsync.ThreadPool
