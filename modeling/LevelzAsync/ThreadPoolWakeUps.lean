import LevelzAsync.ThreadPoolInvariant

/-!
# The pool never sleeps on work

A worker is cold from its last look at the global queue until its event is set. While
all workers are cold nobody looks at the global queue, and then every worker is
counted and has its flag up. Whoever schedules then is a thread from outside, which
takes the immediate wake-up and finds the flag of the first worker up. So as long as
all workers are cold and the global queue is not empty, some call that is still in
flight is about to set an event.
-/

namespace LevelzAsync.ThreadPool

variable {n : ℕ} {O C : Type*}

/-- The call wakes a worker if all workers are cold. -/
def WakePc.promises : WakePc n → Bool
  | .chooseImmediate => true
  | .checkSleepingCount immediate i => immediate && decide (i < n)
  | .checkSleeping immediate _ | .setEvent immediate _ => immediate
  | _ => false

def State.AllCold (s : State n O C) : Prop := ∀ w, (s.worker w).cold = true

def State.Promised (s : State n O C) : Prop :=
  s.globalQueue = [] ∨ ∃ o pc, s.outside o = some pc ∧ pc.promises = true

def NoLostWakeUp (s : State n O C) : Prop := s.AllCold → s.Promised

/-- Inside `sleepUntilWoken`, with the wake-up event not set. -/
def Worker.blocked (k : Worker n C) : Prop :=
  (k.pc = .waitExchange ∨ k.pc = .waitLocked ∨ k.pc = .waiting) ∧ k.wakeUpEvent ≠ .set

section Cold

variable {s s' : State n O C} {w : Fin n} {k : Worker n C} {e : Effect n C}

theorem counted_of_settled (h : k.settled = true) : k.counted = true := by
  obtain ⟨hsleep, hpc⟩ := Bool.and_eq_true_iff.mp h
  unfold Worker.counted
  split
  · next hp =>
      rw [hp] at hpc
      cases hpc
  · rfl
  · exact hsleep

/-- While all workers are cold, all of them are counted. -/
theorem Inv.allCounted (h : Inv s) (hcold : s.AllCold) : s.mayBeSleepingThreadCount = n := by
  have hone : ∀ w, (s.worker w).counted.toNat = 1 := fun w => by
    rw [counted_of_settled (cold_settled (hcold w)), Bool.toNat_true]
  rw [h.mayBeSleeping, Finset.sum_congr rfl fun w _ => hone w]
  simp

theorem isSleeping_of_cold (h : k.cold = true) : k.isSleeping = true :=
  (Bool.and_eq_true_iff.mp (cold_settled h)).1

theorem AllCold.congr (h : s'.AllCold) (hworker : s'.worker = s.worker) : s.AllCold := by
  intro w
  rw [← hworker]
  exact h w

theorem NoLostWakeUp.congr (h : NoLostWakeUp s) (hworker : s'.worker = s.worker)
    (hglobal : s'.globalQueue = s.globalQueue) (houtside : s'.outside = s.outside) :
    NoLostWakeUp s' := by
  intro hcold
  unfold State.Promised
  rw [hglobal, houtside]
  exact h (AllCold.congr hcold hworker)

variable [DecidableEq C]

theorem AllCold.of_apply (h : (s.apply e).AllCold) : s.AllCold :=
  fun w => (apply_worker s e w).cold (h w)

theorem event_setEvent (i : Fin n) :
    ((s.apply (.setEvent i)).worker i).wakeUpEvent = .set := by
  change (Function.update s.worker i _ i).wakeUpEvent = .set
  rw [Function.update_self]

theorem NoLostWakeUp.applyWakes (h : NoLostWakeUp s) (he : e.wakes = true) :
    NoLostWakeUp (s.apply e) := by
  intro hcold
  have hglobal := (apply_of_keepsQueues (s := s) (keepsQueues_of_wakes he)).2.2.2
  unfold State.Promised
  rw [hglobal, apply_outside]
  exact h (AllCold.of_apply hcold)

/-- A worker becomes cold by finding the global queue empty. -/
theorem NoLostWakeUp.worker (h : NoLostWakeUp s) (hm : Moves s w (s.worker w) k e) :
    NoLostWakeUp ((s.setWorker w k).apply e) := by
  intro hcold
  have hbefore : (s.setWorker w k).AllCold := AllCold.of_apply hcold
  have hk : k.cold = true := by
    have := hbefore w
    rwa [setWorker_same] at this
  have hkeeps : e.keepsQueues = true := by
    rcases hm.settled (cold_settled hk) with ⟨rfl, -⟩ | ⟨-, rfl | rfl⟩ <;> rfl
  have hglobal : ((s.setWorker w k).apply e).globalQueue = s.globalQueue :=
    (apply_of_keepsQueues hkeeps).2.2.2
  unfold State.Promised
  rw [hglobal, apply_outside]
  rcases hm.cold hk with hw | hempty
  · apply h
    intro u
    by_cases hu : u = w
    · exact hu ▸ hw
    · have := hbefore u
      rwa [setWorker_other hu] at this
  · exact .inl hempty

end Cold

section Calls

variable [DecidableEq O] [DecidableEq C] {cfg : Config n O} {s s' : State n O C}

omit [DecidableEq O] [DecidableEq C] in
theorem doImmediateWakeUp_foreign (pool : Option Bool) :
    doImmediateWakeUp cfg n (.foreign pool) = true := by
  cases pool with
  | none => rfl
  | some b => simp [doImmediateWakeUp]

omit [DecidableEq O] [DecidableEq C] in
/-- While all workers are cold a promising call goes on to set an event. -/
theorem promises_step (cfg : Config n O) (pool : Option Bool) (b : Bool) {pc : WakePc n}
    (h : Inv s) (hcold : s.AllCold) (hpc : pc.promises = true) :
    (∃ pc', (wakeStep cfg s (.foreign pool) b pc).1 = some pc' ∧ pc'.promises = true) ∨
      ∃ i, (wakeStep cfg s (.foreign pool) b pc).2 = .setEvent i := by
  have hn : s.mayBeSleepingThreadCount = n := h.allCounted hcold
  have hpos := cfg.threadCount_pos
  cases pc with
  | chooseImmediate =>
      refine .inl ⟨_, rfl, ?_⟩
      rw [hn, doImmediateWakeUp_foreign]
      simpa [WakePc.promises] using hpos
  | checkSleepingCount immediate i =>
      obtain ⟨himmediate, hi⟩ := Bool.and_eq_true_iff.mp hpc
      refine .inl ⟨.checkSleeping immediate ⟨i, of_decide_eq_true hi⟩, ?_, himmediate⟩
      unfold wakeStep
      dsimp only
      rw [dif_pos (of_decide_eq_true hi), if_neg (by omega)]
  | checkSleeping immediate i =>
      refine .inl ⟨.setEvent immediate i, ?_, hpc⟩
      unfold wakeStep
      dsimp only
      rw [if_pos (isSleeping_of_cold (hcold i))]
  | setEvent immediate i =>
      refine .inr ⟨i, ?_⟩
      unfold wakeStep
      dsimp only
      rw [if_pos (.inl hpc)]
  | _ => cases hpc

theorem NoLostWakeUp.caller {o : O} {b : Bool} {pc : WakePc n} (h : Inv s) (hn : NoLostWakeUp s)
    (hpc : s.outside o = some pc) :
    NoLostWakeUp ((s.setCaller o (wakeStep cfg s (.foreign (cfg.currentThreadPool o)) b pc).1).apply
      (wakeStep cfg s (.foreign (cfg.currentThreadPool o)) b pc).2) := by
  intro hcold
  have hwakes := wakeStep_wakes (s := s) cfg (.foreign (cfg.currentThreadPool o)) b pc
  have hbefore : s.AllCold := AllCold.congr (AllCold.of_apply hcold) rfl
  have hglobal := (apply_of_keepsQueues
    (s := s.setCaller o (wakeStep cfg s (.foreign (cfg.currentThreadPool o)) b pc).1)
    (keepsQueues_of_wakes hwakes)).2.2.2
  unfold State.Promised
  rw [hglobal, apply_outside]
  rcases hn hbefore with hempty | ⟨o', pc', ho', hpromise⟩
  · exact .inl hempty
  · refine .inr ?_
    by_cases ho : o' = o
    · subst ho
      obtain rfl : pc' = pc := Option.some.inj (ho'.symm.trans hpc)
      rcases promises_step cfg (cfg.currentThreadPool o') b h hbefore hpromise with
        ⟨pc'', hnext, hp⟩ | ⟨i, hi⟩
      · exact ⟨o', pc'', (Function.update_self ..).trans hnext, hp⟩
      · rw [hi] at hcold
        exact absurd (event_setEvent i) (event_of_cold (hcold i))
    · exact ⟨o', pc', (Function.update_of_ne ho ..).trans ho', hpromise⟩

theorem NoLostWakeUp.step {a : Action n O C} (h : Inv s) (hn : NoLostWakeUp s)
    (hs : step cfg s a = some s') : NoLostWakeUp s' := by
  cases a with
  | worker w choice =>
      obtain ⟨⟨k, e⟩, hk, rfl⟩ := Option.map_eq_some_iff.mp hs
      exact hn.worker (workerStep_moves (h.fits w) hk)
  | schedule o c =>
      obtain ⟨-, he⟩ := Option.ite_none_right_eq_some.mp hs
      cases he
      exact fun _ => .inr ⟨o, .chooseImmediate, Function.update_self .., rfl⟩
  | caller o b =>
      obtain ⟨pc, hpc, rfl⟩ := Option.map_eq_some_iff.mp hs
      exact NoLostWakeUp.caller h hn hpc
  | shutdown immediately =>
      obtain ⟨-, he⟩ := Option.ite_none_right_eq_some.mp hs
      cases he
      exact hn.congr rfl rfl rfl
  | closer =>
      obtain ⟨e, he, hsame, houtside⟩ := closerStep_cases hs
      refine (hn.applyWakes he).congr hsame.worker hsame.globalQueue ?_
      rw [houtside, apply_outside]

theorem noLostWakeUp_of_reach (hs : (system cfg C).Reach s) : NoLostWakeUp s := by
  refine (StepSystem.Reach.invariant (I := fun s => Inv s ∧ NoLostWakeUp s)
    (fun s hstart => ?_) (fun s a s' hi ha => ?_) hs).2
  · obtain rfl : s = newPool := hstart
    exact ⟨inv_newPool, fun _ => .inl rfl⟩
  · exact ⟨hi.1.step ha, NoLostWakeUp.step hi.1 hi.2 ha⟩

omit [DecidableEq O] [DecidableEq C] in
theorem Worker.blocked.cold {k : Worker n C} (h : k.blocked) (hfits : k.Fits) :
    k.cold = true ∧ k.localQueue = [] := by
  obtain ⟨hpc, hevent⟩ := h
  unfold Worker.Fits at hfits
  rcases hpc with hpc | hpc | hpc
  all_goals
    rw [hpc] at hfits
    refine ⟨cold_of_settled ?_ hevent (by rw [hpc]; exact ⟨nofun, nofun⟩), hfits.2.2.2⟩
    unfold Worker.settled
    rw [hfits.1, hpc]
    rfl

/-- The worker that took a coroutine keeps it until it resumes it. -/
theorem hand_step {a : Action n O C} {w : Fin n} {c : C} (h : Inv s) (hw : s.hand w = some c)
    (hs : step cfg s a = some s') :
    s'.hand w = some c ∨ (∃ choice, a = .worker w choice) ∧
      (s'.worker w).running = c :: (s.worker w).running ∧ s'.resumed c = s.resumed c + 1 := by
  rcases step_cases hs with ⟨v, choice, k, e, rfl, hk, rfl⟩ | ⟨o, c', -, -, rfl⟩ | ⟨e, -, hsame⟩
  · have hm := workerStep_moves (h.fits v) hk
    rw [apply_hand, hand_setWorker]
    by_cases hv : w = v
    · subst hv
      rw [if_pos rfl]
      by_cases hkeeps : e.keepsQueues = true
      · exact .inl ((hand_of_keepsQueues hkeeps hm.hands).trans hw)
      have hhands := hm.hands
      cases e with
      | takeGlobal c' =>
          have hnone : s.hand w = none := hhands.2.1
          rw [hw] at hnone
          cases hnone
      | takeLocal v c' =>
          have hnone : s.hand w = none := hhands.2.1
          rw [hw] at hnone
          cases hnone
      | globalEnqueue c' => exact .inl (hhands.2.1.trans hw)
      | localEnqueue v c' => exact .inl (hhands.2.2.1.trans hw)
      | resume c' =>
          obtain ⟨hc, -, hrunning⟩ := hhands
          obtain rfl : c' = c := Option.some.inj (hc.symm.trans hw)
          refine .inr ⟨⟨choice, rfl⟩, ?_, Function.update_self ..⟩
          rw [(apply_worker (s.setWorker w k) _ w).running, setWorker_same]
          exact hrunning
      | _ => exact absurd rfl hkeeps
    · rw [if_neg hv]
      exact .inl hw
  · left
    rw [apply_hand]
    exact hw
  · left
    rw [hsame.hand, apply_hand]
    exact hw

/-- No worker is left asleep on queued work, and a coroutine that was scheduled and
not resumed is in one queue or in the hand of one worker, which resumes it. -/
theorem never_sleeps_on_work (hs : (system cfg C).Reach s) :
    ¬ ((∃ key, s.queue key ≠ []) ∧ (∀ w, (s.worker w).blocked) ∧ ∀ o, s.outside o = none) ∧
    (∀ c, s.scheduled c = s.resumed c ∨ s.scheduled c = s.resumed c + 1 ∧
      ∃! place, StoredAt s.queue s.hand c place) ∧
    ∀ w c, s.hand w = some c → ∀ a s', step cfg s a = some s' →
      s'.hand w = some c ∨ (∃ choice, a = .worker w choice) ∧
        (s'.worker w).running = c :: (s.worker w).running ∧
        s'.resumed c = s.resumed c + 1 := by
  have h := inv_of_reach hs
  refine ⟨?_, fun c => ?_, fun w c hw a s' ha => hand_step h hw ha⟩
  · rintro ⟨⟨key, hkey⟩, hblocked, hcalls⟩
    have hcold : ∀ w, (s.worker w).cold = true ∧ (s.worker w).localQueue = [] :=
      fun w => (hblocked w).cold (h.fits w)
    rcases noLostWakeUp_of_reach hs fun w => (hcold w).1 with hempty | ⟨o, pc, ho, -⟩
    · cases key with
      | none => exact hkey hempty
      | some w => exact hkey (hcold w).2
    · rw [hcalls o] at ho
      cases ho
  · have hle := h.ledger.left_le c
    have hle' := h.ledger.le_left_add_one c
    by_cases hc : s.scheduled c = s.resumed c
    · exact .inl hc
    · exact .inr ⟨by omega, h.ledger.existsUnique_place (by omega)⟩

end Calls

/-- The only worker takes the coroutine that the outside thread scheduled. -/
theorem never_sleeps_on_work_taken : ∃ s : State 1 Unit Unit,
    (system (oneThread true) Unit).Reach s ∧ s.hand 0 = some () ∧
      ∃! place, StoredAt s.queue s.hand () place := by
  obtain ⟨s, hs, hw, hscheduled⟩ := StepSystem.Reach.exists_of_exec
    (M := system (oneThread true) Unit)
    (P := fun s => s.hand 0 = some () ∧ s.scheduled () ≠ s.resumed ())
    (s := newPool) (.start rfl)
    [.worker 0 (.go true 0), .schedule () (), .worker 0 (.go true 0)] (by decide)
  rcases (never_sleeps_on_work hs).2.1 () with hc | ⟨-, hplace⟩
  · exact absurd hc hscheduled
  · exact ⟨s, hs, hw, hplace⟩

end LevelzAsync.ThreadPool
