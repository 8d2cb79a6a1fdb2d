import LevelzAsync.ThreadPoolInvariant
import Mathlib.Algebra.BigOperators.Group.Finset.Piecewise
import Mathlib.Data.Fintype.Card

/-!
# The sleep counters of a pool stay in range

Which workers have counted themselves in `m_mayBeSleepingThreadCount` and not yet out
of it is kept beside the pool. The counters are natural numbers in the model; `Asserts`
says at each program point what the source asserts there, and that a counter that
comes down there is not zero, so that the difference is that of the source.
-/

namespace LevelzAsync.ThreadPool

variable {n : ℕ} {O C : Type*}

/-- A count that a wake-up call holds in its local variable, or is going to store. -/
def WakePc.Holds : WakePc n → Prop
  | .takePending count => 0 < count ∧ count ≤ n
  | .compareRequests count => count ≤ n
  | .addRequest count => count < n
  | _ => True

def WakePc.Asserts (s : State n O C) : WakePc n → Prop
  | .loadPending => s.pendingWakeUpRequestCount ≤ n
  | pc => pc.Holds

def Pc.Asserts (s : State n O C) : Pc n → Prop
  | .beforeSleep | .clearSleeping true => s.sleepingThreadCount < n
  | .afterSleep => 0 < s.sleepingThreadCount
  | .uncountSleeping _ => 0 < s.mayBeSleepingThreadCount
  | .wake pc => pc.Asserts s
  | _ => True

/-- A pool, and the workers that have counted themselves in and not yet out. -/
structure Watched (n : ℕ) (O C : Type*) where
  pool : State n O C
  countedIn : Finset (Fin n)

def countIn (w : Fin n) (countedIn : Finset (Fin n)) : Effect n C → Finset (Fin n)
  | .mayBeSleeping true => insert w countedIn
  | .mayBeSleeping false => countedIn.erase w
  | _ => countedIn

section Watched

variable [DecidableEq O] [DecidableEq C]

def stepCountedIn (cfg : Config n O) (s : State n O C) (countedIn : Finset (Fin n)) :
    Action n O C → Finset (Fin n)
  | .worker w choice =>
      match workerStep cfg s w choice with
      | some (_, e) => countIn w countedIn e
      | none => countedIn
  | _ => countedIn

def watchedSystem (cfg : Config n O) (C : Type*) [DecidableEq C] :
    StepSystem (Watched n O C) (Action n O C) where
  start s := s = ⟨newPool, ∅⟩
  step s a := (step cfg s.pool a).map fun pool => ⟨pool, stepCountedIn cfg s.pool s.countedIn a⟩

theorem reach_of_watched {cfg : Config n O} {s : Watched n O C}
    (hs : (watchedSystem cfg C).Reach s) : (system cfg C).Reach s.pool := by
  have hrefines : (watchedSystem cfg C).Refines (system cfg C) Watched.pool := by
    refine ⟨fun s hstart => ?_, fun s a s' _ ha => ?_⟩
    · obtain rfl : s = ⟨newPool, ∅⟩ := hstart
      rfl
    · obtain ⟨pool, hpool, rfl⟩ := Option.map_eq_some_iff.mp ha
      exact .inr ⟨a, hpool⟩
  exact hrefines.reach hs

end Watched

section Counts

variable {s : State n O C} {w : Fin n} {k k' : Worker n C} {e : Effect n C}

theorem counted_of_asleep (hfits : k.Fits) (h : k.asleep = true) : k.counted = true := by
  obtain ⟨pc, hand, running, isSleeping, wakeUpEvent, localQueue⟩ := k
  cases pc with
  | waitExchange | waitLocked | waiting | clearEvent | afterSleep => exact hfits.1
  | _ => cases h

theorem sum_toNat_le (f : Fin n → Bool) : ∑ u, (f u).toNat ≤ n :=
  calc ∑ u, (f u).toNat ≤ ∑ _ : Fin n, 1 := Finset.sum_le_sum fun u _ => Bool.toNat_le (f u)
    _ = n := by simp

theorem sum_toNat_lt (f : Fin n → Bool) (h : f w = false) : ∑ u, (f u).toNat < n :=
  calc ∑ u, (f u).toNat < ∑ _ : Fin n, 1 :=
        Finset.sum_lt_sum (fun u _ => Bool.toNat_le (f u)) ⟨w, Finset.mem_univ w, by rw [h]; simp⟩
    _ = n := by simp

theorem sum_toNat_pos (f : Fin n → Bool) (h : f w = true) : 0 < ∑ u, (f u).toNat := by
  have := le_sum_tally f Bool.toNat w
  rw [h, Bool.toNat_true] at this
  exact this

theorem Inv.sleeping_le (h : Inv s) : s.sleepingThreadCount ≤ s.mayBeSleepingThreadCount := by
  rw [h.sleeping, h.mayBeSleeping]
  refine Finset.sum_le_sum fun u _ => ?_
  cases hasleep : (s.worker u).asleep with
  | false => exact Nat.zero_le _
  | true => rw [counted_of_asleep (h.fits u) hasleep]

theorem Inv.mayBeSleeping_le (h : Inv s) : s.mayBeSleepingThreadCount ≤ n :=
  h.mayBeSleeping ▸ sum_toNat_le fun u => (s.worker u).counted

theorem Inv.sleeping_lt (h : Inv s) (hw : (s.worker w).asleep = false) :
    s.sleepingThreadCount < n :=
  h.sleeping ▸ sum_toNat_lt (fun u => (s.worker u).asleep) hw

theorem Inv.sleeping_pos (h : Inv s) (hw : (s.worker w).asleep = true) :
    0 < s.sleepingThreadCount :=
  h.sleeping ▸ sum_toNat_pos (fun u => (s.worker u).asleep) hw

theorem Inv.mayBeSleeping_pos (h : Inv s) (hw : (s.worker w).counted = true) :
    0 < s.mayBeSleepingThreadCount :=
  h.mayBeSleeping ▸ sum_toNat_pos (fun u => (s.worker u).counted) hw

end Counts

section Pending

/-- What a step stores in `m_pendingWakeUpRequestCount`. -/
def Effect.Stores : Effect n C → Prop
  | .pending count => count ≤ n
  | _ => True

def Pc.Holds : Pc n → Prop
  | .wake pc => pc.Holds
  | _ => True

structure PendingInRange (s : State n O C) : Prop where
  pending : s.pendingWakeUpRequestCount ≤ n
  worker : ∀ w, (s.worker w).pc.Holds
  outside : ∀ o pc, s.outside o = some pc → pc.Holds

variable {cfg : Config n O} {s s' : State n O C} {w : Fin n} {k k' : Worker n C} {e : Effect n C}

/-- A request is added below the count of those that may sleep, and taken above zero. -/
theorem wakeStep_holds (cfg : Config n O) (caller : Caller) (b : Bool) {pc : WakePc n}
    (hmayBe : s.mayBeSleepingThreadCount ≤ n) (hpending : s.pendingWakeUpRequestCount ≤ n)
    (hpc : pc.Holds) :
    (∀ pc', (wakeStep cfg s caller b pc).1 = some pc' → pc'.Holds) ∧
      (wakeStep cfg s caller b pc).2.Stores := by
  unfold wakeStep
  cases pc with
  | loadPending =>
      dsimp only
      split_ifs with hzero
      · exact ⟨nofun, trivial⟩
      · refine ⟨fun pc' he => ?_, trivial⟩
        cases he
        exact ⟨Nat.pos_of_ne_zero hzero, hpending⟩
  | takePending count =>
      dsimp only
      split_ifs with htake hzero
      · refine ⟨fun pc' he => ?_, (Nat.sub_le count 1).trans hpc.2⟩
        cases he
        trivial
      · exact ⟨nofun, trivial⟩
      · refine ⟨fun pc' he => ?_, trivial⟩
        cases he
        exact ⟨Nat.pos_of_ne_zero hzero, hpending⟩
  | loadRequests =>
      refine ⟨fun pc' he => ?_, trivial⟩
      cases he
      exact hpending
  | compareRequests count =>
      dsimp only
      split_ifs with hle
      · exact ⟨nofun, trivial⟩
      · refine ⟨fun pc' he => ?_, trivial⟩
        cases he
        exact (not_le.mp hle).trans_le hmayBe
  | addRequest count =>
      dsimp only
      split_ifs with hadd
      · exact ⟨nofun, hpc⟩
      · refine ⟨fun pc' he => ?_, trivial⟩
        cases he
        exact hpending
  | chooseImmediate =>
      refine ⟨fun pc' he => ?_, trivial⟩
      cases he
      trivial
  | checkAllSleeping =>
      dsimp only
      split
      · split_ifs
        all_goals refine ⟨fun pc' he => ?_, trivial⟩
        all_goals cases he
        all_goals trivial
      · refine ⟨fun pc' he => ?_, trivial⟩
        cases he
        trivial
  | checkSleepingCount immediate i | checkSleeping immediate i | setEvent immediate i
  | recheckSleepingCount | checkPending =>
      dsimp only
      split_ifs
      all_goals refine ⟨fun pc' he => ?_, trivial⟩
      all_goals cases he
      all_goals trivial

theorem holds_afterWake : k.afterWake.pc.Holds := by
  unfold Worker.afterWake Worker.go
  split_ifs <;> trivial

theorem holds_gotWork {c : C} : (k.gotWork c).pc.Holds := by
  unfold Worker.gotWork
  dsimp only
  split_ifs <;> trivial

theorem holds_gotNoWork : k.gotNoWork.pc.Holds := by
  unfold Worker.gotNoWork Worker.go
  split_ifs <;> trivial

theorem holds_gotNoRemote {first : Bool} : (k.gotNoRemote first).pc.Holds := by
  unfold Worker.gotNoRemote
  split_ifs
  · trivial
  · exact holds_gotNoWork

theorem holds_spinNext {i : ℕ} : (k.spinNext i).pc.Holds := by
  unfold Worker.spinNext Worker.go
  split_ifs <;> trivial

theorem holds_tryGetWork {noLocalWork b : Bool} : (k.tryGetWork noLocalWork b).pc.Holds := by
  unfold Worker.tryGetWork Worker.go
  split_ifs <;> trivial

theorem holds_afterClear {woken : Bool} : (k.afterClear woken).pc.Holds := by
  unfold Worker.afterClear
  split_ifs
  · trivial
  · exact holds_afterWake

theorem goStep_holds (hmayBe : s.mayBeSleepingThreadCount ≤ n)
    (hpending : s.pendingWakeUpRequestCount ≤ n) {b : Bool} {victim : Fin n} (hpc : k.pc.Holds)
    (hs : goStep cfg s w k b victim = some (k', e)) : k'.pc.Holds ∧ e.Stores := by
  obtain ⟨pc, hand, running, isSleeping, wakeUpEvent, localQueue⟩ := k
  unfold goStep at hs
  cases pc with
  | globalDequeue first =>
      dsimp only at hs
      split at hs
      · cases hs
        exact ⟨holds_gotWork, trivial⟩
      · split_ifs at hs
        · cases hs
          exact ⟨holds_gotNoRemote, trivial⟩
        · cases hs
          exact ⟨trivial, trivial⟩
  | steal first j =>
      dsimp only at hs
      split at hs
      · split at hs
        · cases hs
          exact ⟨holds_gotWork, trivial⟩
        · cases hs
          exact ⟨trivial, trivial⟩
      · cases hs
        exact ⟨holds_gotNoRemote, trivial⟩
  | localPop remoteTried =>
      dsimp only at hs
      split at hs
      · cases hs
        exact ⟨holds_gotWork, trivial⟩
      · split_ifs at hs
        · cases hs
          exact ⟨holds_gotNoWork, trivial⟩
        · cases hs
          exact ⟨trivial, trivial⟩
  | spinDequeue i =>
      dsimp only at hs
      split at hs
      · cases hs
        exact ⟨trivial, trivial⟩
      · split_ifs at hs
        · cases hs
          exact ⟨holds_spinNext, trivial⟩
        · cases hs
          exact ⟨trivial, trivial⟩
  | spinSteal i j =>
      dsimp only at hs
      split at hs
      · split at hs
        · cases hs
          exact ⟨trivial, trivial⟩
        · cases hs
          exact ⟨trivial, trivial⟩
      · cases hs
        exact ⟨holds_spinNext, trivial⟩
  | top =>
      dsimp only at hs
      split_ifs at hs
      · cases hs
        exact ⟨trivial, trivial⟩
      · cases hs
        exact ⟨holds_tryGetWork, trivial⟩
  | checkNobodySleeps woken =>
      dsimp only at hs
      split_ifs at hs
      · cases hs
        exact ⟨trivial, trivial⟩
      · cases hs
        exact ⟨holds_afterClear, trivial⟩
  | clearPending woken =>
      cases hs
      exact ⟨holds_afterClear, Nat.zero_le n⟩
  | wake pc =>
      have hwake := wakeStep_holds cfg .own b hmayBe hpending hpc
      dsimp only at hs
      split at hs
      · next pc' e' he =>
          cases hs
          rw [he] at hwake
          exact ⟨hwake.1 pc' rfl, hwake.2⟩
      · next e' he =>
          cases hs
          rw [he] at hwake
          exact ⟨holds_afterWake, hwake.2⟩
  | resume =>
      obtain ⟨c, -, he⟩ := Option.map_eq_some_iff.mp hs
      cases he
      exact ⟨trivial, trivial⟩
  | waiting =>
      obtain ⟨-, he⟩ := Option.ite_none_right_eq_some.mp hs
      cases he
      exact ⟨trivial, trivial⟩
  | spinState i | spinPending | waitExchange =>
      dsimp only at hs
      split_ifs at hs
      all_goals
        cases hs
        exact ⟨trivial, trivial⟩
  | waitLocked | normalProcessing =>
      cases hs
      dsimp only [Worker.go]
      split_ifs <;> exact ⟨trivial, trivial⟩
  | setSleeping | countSleeping | beforeSleep | clearEvent | afterSleep | clearSleeping
  | uncountSleeping =>
      cases hs
      exact ⟨trivial, trivial⟩
  | body | returnedAtTop | returnedInSpin => cases hs

theorem workerStep_holds [DecidableEq C] (hmayBe : s.mayBeSleepingThreadCount ≤ n)
    (hpending : s.pendingWakeUpRequestCount ≤ n) {choice : Choice n C}
    (hpc : (s.worker w).pc.Holds) (hs : workerStep cfg s w choice = some (k', e)) :
    k'.pc.Holds ∧ e.Stores := by
  cases choice with
  | go b victim => exact goStep_holds hmayBe hpending hpc hs
  | schedule c =>
      obtain ⟨-, hs⟩ := Option.ite_none_right_eq_some.mp hs
      obtain ⟨-, he⟩ := Option.ite_none_right_eq_some.mp hs
      cases he
      split_ifs <;> exact ⟨trivial, trivial⟩
  | onReady =>
      obtain ⟨-, hs⟩ := Option.ite_none_right_eq_some.mp hs
      cases hs
      exact ⟨trivial, trivial⟩
  | yield b =>
      obtain ⟨-, hs⟩ := Option.ite_none_right_eq_some.mp hs
      cases hs
      exact ⟨holds_tryGetWork, trivial⟩
  | finish =>
      obtain ⟨-, hs⟩ := Option.ite_none_right_eq_some.mp hs
      cases hs
      dsimp only
      split_ifs <;> exact ⟨trivial, trivial⟩

theorem PendingInRange.congr (h : PendingInRange s)
    (hpending : s'.pendingWakeUpRequestCount = s.pendingWakeUpRequestCount)
    (hworker : s'.worker = s.worker) (houtside : s'.outside = s.outside) : PendingInRange s' :=
  ⟨hpending ▸ h.pending, hworker ▸ h.worker, houtside ▸ h.outside⟩

theorem PendingInRange.setWorker (h : PendingInRange s) (hk : k.pc.Holds) :
    PendingInRange (s.setWorker w k) := by
  refine ⟨h.pending, fun u => ?_, h.outside⟩
  by_cases hu : u = w
  · rw [hu, setWorker_same]
    exact hk
  · rw [setWorker_other hu]
    exact h.worker u

variable [DecidableEq C]

theorem PendingInRange.apply (h : PendingInRange s) (he : e.Stores) :
    PendingInRange (s.apply e) := by
  refine ⟨?_, fun u => ?_, ?_⟩
  · cases e with
    | pending count => exact he
    | mayBeSleeping up | sleeping up =>
        cases up with
        | true => exact h.pending
        | false => exact h.pending
    | _ => exact h.pending
  · rw [(apply_worker s e u).pc]
    exact h.worker u
  · rw [apply_outside]
    exact h.outside

theorem PendingInRange.closerStep {pc : Closer n} (h : PendingInRange s)
    (hs : closerStep s pc = some s') : PendingInRange s' := by
  unfold ThreadPool.closerStep at hs
  cases pc with
  | notCalled | returned => cases hs
  | checkSleeping i =>
      dsimp only at hs
      split_ifs at hs
      all_goals
        cases hs
        exact h.congr rfl rfl rfl
  | setEvent i =>
      cases hs
      exact PendingInRange.congr (h.apply (e := .setEvent i) trivial) rfl rfl rfl

variable [DecidableEq O]

omit [DecidableEq C] in
theorem PendingInRange.setCaller (h : PendingInRange s) {o : O} {next : Option (WakePc n)}
    (hnext : ∀ pc, next = some pc → pc.Holds) : PendingInRange (s.setCaller o next) := by
  refine ⟨h.pending, h.worker, fun o' pc hpc => ?_⟩
  rcases agent_cases (Q := fun c => c = some pc) rfl hpc with ⟨-, he⟩ | ⟨-, he⟩
  · exact hnext pc he
  · exact h.outside o' pc he

theorem PendingInRange.step {a : Action n O C} (hi : Inv s) (h : PendingInRange s)
    (hs : step cfg s a = some s') : PendingInRange s' := by
  cases a with
  | worker w choice =>
      obtain ⟨⟨k, e⟩, hk, rfl⟩ := Option.map_eq_some_iff.mp hs
      have hholds := workerStep_holds hi.mayBeSleeping_le h.pending (h.worker w) hk
      exact (h.setWorker hholds.1).apply hholds.2
  | schedule o c =>
      obtain ⟨-, he⟩ := Option.ite_none_right_eq_some.mp hs
      cases he
      refine PendingInRange.apply (e := .globalEnqueue c) (h.setCaller fun pc hpc => ?_) trivial
      cases hpc
      trivial
  | caller o b =>
      obtain ⟨pc, hpc, rfl⟩ := Option.map_eq_some_iff.mp hs
      have hwake := wakeStep_holds cfg (.foreign (cfg.currentThreadPool o)) b hi.mayBeSleeping_le
        h.pending (h.outside o pc hpc)
      exact (h.setCaller hwake.1).apply hwake.2
  | shutdown immediately =>
      obtain ⟨-, he⟩ := Option.ite_none_right_eq_some.mp hs
      cases he
      exact h.congr rfl rfl rfl
  | closer =>
      exact h.closerStep hs

theorem pendingInRange_of_reach (hs : (system cfg C).Reach s) : PendingInRange s := by
  refine (StepSystem.Reach.invariant (I := fun s => Inv s ∧ PendingInRange s)
    (fun s hstart => ?_) (fun s a s' hi ha => ⟨hi.1.step ha, hi.2.step hi.1 ha⟩) hs).2
  obtain rfl : s = newPool := hstart
  exact ⟨inv_newPool, Nat.zero_le n, fun _ => trivial, nofun⟩

end Pending

section Runs

theorem asserts_of_holds {s : State n O C} (hpending : s.pendingWakeUpRequestCount ≤ n)
    {pc : WakePc n} (hpc : pc.Holds) : pc.Asserts s := by
  cases pc with
  | loadPending => exact hpending
  | _ => exact hpc

theorem pc_asserts {s : State n O C} (hi : Inv s) (h : PendingInRange s) (w : Fin n) :
    (s.worker w).pc.Asserts s := by
  have hholds := h.worker w
  cases hpc : (s.worker w).pc with
  | beforeSleep => exact hi.sleeping_lt (w := w) (by unfold Worker.asleep; rw [hpc])
  | clearSleeping woken =>
      cases woken with
      | true => exact hi.sleeping_lt (w := w) (by unfold Worker.asleep; rw [hpc])
      | false => trivial
  | afterSleep => exact hi.sleeping_pos (w := w) (by unfold Worker.asleep; rw [hpc])
  | uncountSleeping woken =>
      exact hi.mayBeSleeping_pos (w := w) (by unfold Worker.counted; rw [hpc])
  | wake pc =>
      rw [hpc] at hholds
      exact asserts_of_holds h.pending hholds
  | _ => trivial

/-- A worker is counted from the step that counts it in to the one that counts it out. -/
theorem mem_countIn {w u : Fin n} {countedIn : Finset (Fin n)} {e : Effect n C}
    {before after : Bool} (hw : w ∈ countedIn ↔ before = true)
    (he : e.CountsMayBe before after) :
    (w ∈ countIn w countedIn e ↔ after = true) ∧
      (u ≠ w → (u ∈ countIn w countedIn e ↔ u ∈ countedIn)) := by
  cases e with
  | mayBeSleeping up =>
      cases up with
      | true =>
          obtain ⟨-, hafter⟩ := he
          refine ⟨by simp [countIn, hafter], fun hu => ?_⟩
          exact Finset.mem_insert.trans (or_iff_right hu)
      | false =>
          obtain ⟨-, hafter⟩ := he
          refine ⟨by simp [countIn, hafter], fun hu => ?_⟩
          exact Finset.mem_erase.trans (and_iff_right hu)
  | _ =>
      obtain rfl : after = before := he
      exact ⟨hw, fun _ => Iff.rfl⟩

variable [DecidableEq O] [DecidableEq C] {cfg : Config n O}

theorem countedIn_step {s s' : State n O C} {countedIn : Finset (Fin n)} {a : Action n O C}
    (hi : Inv s) (h : ∀ w, w ∈ countedIn ↔ (s.worker w).counted = true)
    (hs : step cfg s a = some s') (w : Fin n) :
    w ∈ stepCountedIn cfg s countedIn a ↔ (s'.worker w).counted = true := by
  cases a with
  | worker v choice =>
      obtain ⟨⟨k, e⟩, hk, rfl⟩ := Option.map_eq_some_iff.mp hs
      have hm := workerStep_moves (hi.fits v) hk
      obtain ⟨hself, hother⟩ := mem_countIn (u := w) (h v) hm.counted
      simp only [stepCountedIn, hk]
      rw [(apply_worker (s.setWorker v k) e w).counted]
      by_cases hw : w = v
      · subst hw
        rw [setWorker_same]
        exact hself
      · rw [setWorker_other hw]
        exact (hother hw).trans (h w)
  | schedule o c =>
      obtain ⟨-, he⟩ := Option.ite_none_right_eq_some.mp hs
      cases he
      exact h w
  | caller o b =>
      obtain ⟨pc, -, rfl⟩ := Option.map_eq_some_iff.mp hs
      rw [(apply_worker _ _ w).counted]
      exact h w
  | shutdown immediately =>
      obtain ⟨-, he⟩ := Option.ite_none_right_eq_some.mp hs
      cases he
      exact h w
  | closer =>
      obtain ⟨e, -, hsame, -⟩ := closerStep_cases hs
      rw [hsame.worker, (apply_worker s e w).counted]
      exact h w

theorem countedIn_of_reach {s : Watched n O C} (hs : (watchedSystem cfg C).Reach s) (w : Fin n) :
    w ∈ s.countedIn ↔ (s.pool.worker w).counted = true := by
  refine (StepSystem.Reach.invariant (I := fun s : Watched n O C => Inv s.pool ∧
    ∀ w, w ∈ s.countedIn ↔ (s.pool.worker w).counted = true) (fun s hstart => ?_)
    (fun s a s' hi ha => ?_) hs).2 w
  · obtain rfl : s = ⟨newPool, ∅⟩ := hstart
    exact ⟨inv_newPool, fun w => by simp [newPool, newWorker, Worker.counted]⟩
  · obtain ⟨pool, hpool, rfl⟩ := Option.map_eq_some_iff.mp ha
    exact ⟨hi.1.step hpool, countedIn_step hi.1 hi.2 hpool⟩

/-- The counters are in range, `m_mayBeSleepingThreadCount` is the number of workers
that are counted in, and whatever is asserted of a counter holds where it is asserted. -/
theorem sleep_counters_in_range {s : Watched n O C} (hs : (watchedSystem cfg C).Reach s) :
    s.pool.sleepingThreadCount ≤ s.pool.mayBeSleepingThreadCount ∧
      s.pool.mayBeSleepingThreadCount ≤ n ∧ s.pool.pendingWakeUpRequestCount ≤ n ∧
      s.pool.mayBeSleepingThreadCount = s.countedIn.card ∧
      (∀ w, (s.pool.worker w).pc.Asserts s.pool) ∧
      ∀ o pc, s.pool.outside o = some pc → pc.Asserts s.pool := by
  have hi := inv_of_reach (reach_of_watched hs)
  have hp := pendingInRange_of_reach (reach_of_watched hs)
  refine ⟨hi.sleeping_le, hi.mayBeSleeping_le, hp.pending, ?_, pc_asserts hi hp,
    fun o pc hpc => asserts_of_holds hp.pending (hp.outside o pc hpc)⟩
  have hfilter : s.countedIn = Finset.univ.filter fun w => (s.pool.worker w).counted = true := by
    ext w
    rw [countedIn_of_reach hs, Finset.mem_filter, and_iff_right (Finset.mem_univ w)]
  rw [hi.mayBeSleeping, hfilter, Finset.card_filter]
  exact Finset.sum_congr rfl fun w _ => by cases (s.pool.worker w).counted <;> rfl

/-- The only worker has gone to sleep. -/
theorem sleep_counters_in_range_asleep : ∃ s : Watched 1 Unit Unit,
    (watchedSystem (oneThread true) Unit).Reach s ∧ s.pool.sleepingThreadCount = 1 ∧
      s.pool.mayBeSleepingThreadCount = 1 ∧ s.countedIn.card = 1 := by
  obtain ⟨s, hs, hasleep, hmayBe⟩ := StepSystem.Reach.exists_of_exec
    (M := watchedSystem (oneThread true) Unit)
    (P := fun s => s.pool.sleepingThreadCount = 1 ∧ s.pool.mayBeSleepingThreadCount = 1)
    (s := ⟨newPool, ∅⟩) (.start rfl)
    (List.replicate 140 (.worker 0 (.go true 0)))
    (by decide +kernel)
  obtain ⟨-, -, -, hcard, -⟩ := sleep_counters_in_range hs
  exact ⟨s, hs, hasleep, hmayBe, hcard.symm.trans hmayBe⟩

end Runs

end LevelzAsync.ThreadPool
