import LevelzAsync.ThreadPoolSleepers

/-!
# A shut down pool waits only for bodies

A worker that runs alone after the wake-up loop of `shutdown`, and whose exchanges fail
only when the word has changed, comes to a body or leaves. Its rank counts the steps
that are left: with a coroutine in hand it goes to the resumption of that coroutine,
and without one it goes through the loop once more and reads the new `m_state` in the
spin.
-/

namespace LevelzAsync.ThreadPool

variable {n : ℕ} {O C : Type*}

def WakePc.rank (pending : ℕ) : WakePc n → ℕ
  | .addRequest count => if count = pending then 1 else 3
  | .compareRequests count => if count = pending then 2 else 4
  | .loadRequests => 5
  | .setEvent true i => 6 + 3 * (n - i)
  | .checkSleeping true i => 7 + 3 * (n - i)
  | .checkSleepingCount true i => 8 + 3 * (n - i)
  | .checkPending => 9 + 3 * n
  | .checkAllSleeping => 10 + 3 * n
  | .recheckSleepingCount => 11 + 3 * n
  | .setEvent false i => 12 + 3 * n + 3 * (n - i)
  | .checkSleeping false i => 13 + 3 * n + 3 * (n - i)
  | .checkSleepingCount false i => 14 + 3 * n + 3 * (n - i)
  | .chooseImmediate => 15 + 6 * n
  | .takePending count => if count = pending then 16 + 6 * n else 17 + 6 * n
  | .loadPending => 18 + 6 * n

def Pc.rankInHand (pending : ℕ) : Pc n → ℕ
  | .resume => 1
  | .wake pc => 2 + pc.rank pending
  | .clearPending false => 6 * n + 21
  | .checkNobodySleeps false => 6 * n + 22
  | .uncountSleeping false => 6 * n + 23
  | .clearSleeping false => 6 * n + 24
  | .normalProcessing => 6 * n + 25
  | _ => 0

/-- Steps left of a worker with the hand empty or not, up to a body or the return. -/
def Pc.rank (pending : ℕ) (inHand : Bool) : Pc n → ℕ
  | .body | .returnedAtTop | .returnedInSpin => 0
  | .spinState _ => 6 * n + 26
  | .spinSteal i j =>
      if i < numRemoteWorksChecksBeforeSleep then 6 * n + 27 + (2 * n - j)
      else 16 * n + 63 + (2 * n - j)
  | .spinDequeue i =>
      if i < numRemoteWorksChecksBeforeSleep then 8 * n + 28 else 18 * n + 64
  | .countSleeping | .clearPending true | .localPop true => 8 * n + 29
  | .setSleeping | .checkNobodySleeps true => 8 * n + 30
  | .uncountSleeping true => 8 * n + 31
  | .clearSleeping true => 8 * n + 32
  | .afterSleep => 8 * n + 33
  | .clearEvent => 8 * n + 34
  | .waiting => 8 * n + 35
  | .waitLocked => 8 * n + 36
  | .waitExchange => 8 * n + 37
  | .beforeSleep => 8 * n + 38
  | .steal _ j => 8 * n + 30 + (2 * n - j)
  | .globalDequeue _ => 10 * n + 31
  | .localPop false => 10 * n + 32
  | .top => 10 * n + 33
  | .spinPending => 16 * n + 62
  | pc => pc.rankInHand pending + if inHand = true then 0 else 10 * n + 34

def Worker.rank (pending : ℕ) (k : Worker n C) : ℕ := k.pc.rank pending k.hand.isSome

def Pc.exchanges : Pc n → Bool
  | .wake (.takePending _) | .wake (.addRequest _) => true
  | _ => false

/-- The worker `w` goes on by itself, and its exchanges do not fail spuriously. -/
def Alone (w : Fin n) (s : State n O C) : Action n O C → Prop
  | .worker u (.go b _) => u = w ∧ (b = true ∨ (s.worker w).pc.exchanges = false)
  | _ => False

instance (w : Fin n) (s : State n O C) (a : Action n O C) : Decidable (Alone w s a) :=
  match a with
  | .worker u (.go b _) =>
      inferInstanceAs (Decidable (u = w ∧ (b = true ∨ (s.worker w).pc.exchanges = false)))
  | .worker _ (.schedule _) | .worker _ .onReady | .worker _ (.yield _) | .worker _ .finish =>
      inferInstanceAs (Decidable False)
  | .schedule _ _ | .caller _ _ | .shutdown _ | .closer => inferInstanceAs (Decidable False)

def Effect.pendingAfter (pending : ℕ) : Effect n C → ℕ
  | .pending count => count
  | _ => pending

section Rank

variable {cfg : Config n O} {s : State n O C} {w : Fin n} {k k' : Worker n C} {e : Effect n C}
  {p : ℕ}

attribute [local simp] WakePc.rank Pc.rankInHand Pc.rank Worker.rank Worker.go Effect.pendingAfter

theorem rank_le (pc : WakePc n) : pc.rank p ≤ 18 + 6 * n := by
  unfold WakePc.rank
  split <;> try split_ifs
  all_goals omega

theorem rank_pos (pc : WakePc n) : 0 < pc.rank p := by
  unfold WakePc.rank
  split <;> try split_ifs
  all_goals omega

theorem wakeStep_rank {caller : Caller} {b : Bool} {pc pc' : WakePc n}
    (hb : b = true ∨ (Pc.wake pc).exchanges = false)
    (hs : (wakeStep cfg s caller b pc).1 = some pc') :
    pc'.rank ((wakeStep cfg s caller b pc).2.pendingAfter s.pendingWakeUpRequestCount) <
      pc.rank s.pendingWakeUpRequestCount := by
  unfold wakeStep at hs ⊢
  cases pc with
  | loadPending =>
      dsimp only at hs ⊢
      split_ifs at hs ⊢ with hzero
      cases hs
      simp
  | takePending count =>
      obtain rfl : b = true := hb.resolve_right nofun
      dsimp only at hs ⊢
      split_ifs at hs ⊢ with htake hzero
      · cases hs
        simp [htake.1]
      · cases hs
        have hne : count ≠ s.pendingWakeUpRequestCount := fun h => htake ⟨h.symm, rfl⟩
        simp [hne]
  | chooseImmediate =>
      cases hs
      cases doImmediateWakeUp cfg s.mayBeSleepingThreadCount caller with
      | true =>
          simp only [WakePc.rank]
          omega
      | false =>
          simp only [WakePc.rank]
          omega
  | checkSleepingCount immediate i =>
      dsimp only at hs ⊢
      split_ifs at hs ⊢ with hi hzero
      · cases hs
        cases immediate with
        | true =>
            simp only [WakePc.rank]
            omega
        | false =>
            simp only [WakePc.rank]
            omega
      · cases hs
        cases immediate with
        | true => exact absurd rfl ‹¬true = true›
        | false =>
            simp only [WakePc.rank]
            omega
  | checkSleeping immediate i =>
      have hi := i.isLt
      dsimp only at hs ⊢
      split_ifs at hs ⊢ with hsleep
      · cases hs
        cases immediate with
        | true => simp only [WakePc.rank]; omega
        | false => simp only [WakePc.rank]; omega
      · cases hs
        cases immediate with
        | true => simp only [WakePc.rank]; omega
        | false => simp only [WakePc.rank]; omega
  | setEvent immediate i =>
      have hi := i.isLt
      dsimp only at hs ⊢
      split_ifs at hs ⊢ with hset
      cases hs
      cases immediate with
      | true => exact absurd (.inl rfl) hset
      | false => simp only [WakePc.rank]; omega
  | recheckSleepingCount =>
      dsimp only at hs ⊢
      split_ifs at hs ⊢
      cases hs
      simp only [WakePc.rank]
      omega
  | checkAllSleeping =>
      dsimp only at hs ⊢
      split at hs
      · split_ifs at hs
        · cases hs
          simp
        · cases hs
          simp only [WakePc.rank]
          omega
      · cases hs
        simp only [WakePc.rank]
        omega
  | checkPending =>
      dsimp only at hs ⊢
      split_ifs at hs ⊢
      · cases hs
        simp only [WakePc.rank]
        omega
      · cases hs
        simp only [WakePc.rank]
        omega
  | loadRequests =>
      cases hs
      simp
  | compareRequests count =>
      dsimp only at hs ⊢
      split_ifs at hs ⊢
      cases hs
      by_cases hc : count = s.pendingWakeUpRequestCount
      · simp [hc]
      · simp [hc]
  | addRequest count =>
      obtain rfl : b = true := hb.resolve_right nofun
      dsimp only at hs ⊢
      split_ifs at hs ⊢ with hadd
      cases hs
      have hne : count ≠ s.pendingWakeUpRequestCount := fun h => hadd ⟨h.symm, rfl⟩
      simp [hne]

theorem rank_afterWake : k.afterWake.rank p ≤ if k.hand.isSome = true then 1
    else 10 * n + 33 := by
  unfold Worker.afterWake Worker.rank
  split_ifs with hhand hrunning
  · simp [hhand]
  · simp
  · simp

theorem rank_gotWork {c : C} : (k.gotWork c).rank p ≤ 6 * n + 20 := by
  unfold Worker.gotWork Worker.rank
  split_ifs
  · have := rank_le (p := p) (WakePc.loadPending (n := n))
    simp
    omega
  · simp

theorem rank_gotNoWork : k.gotNoWork.rank p ≤ 8 * n + 28 := by
  unfold Worker.gotNoWork Worker.rank
  split_ifs
  · simp [numRemoteWorksChecksBeforeSleep]
  · simp

theorem rank_gotNoRemote {first : Bool} : (k.gotNoRemote first).rank p ≤ 8 * n + 29 := by
  unfold Worker.gotNoRemote
  split_ifs
  · simp
  · exact rank_gotNoWork.trans (Nat.le_succ _)

theorem rank_tryGetWork {noLocalWork b : Bool} :
    (k.tryGetWork noLocalWork b).rank p ≤ 10 * n + 32 := by
  unfold Worker.tryGetWork Worker.rank
  split_ifs
  · simp
  · simp

theorem rank_spinNext {i : ℕ} : (k.spinNext i).rank p =
    if i < numRemoteWorksChecksBeforeSleep then 6 * n + 26 else 16 * n + 62 := by
  unfold Worker.spinNext Worker.rank
  split_ifs
  · rfl
  · rfl

theorem rank_afterClear {woken : Bool} : (k.afterClear woken).rank p ≤
    if woken = true then 8 * n + 28 else if k.hand.isSome = true then 1 else 10 * n + 33 := by
  unfold Worker.afterClear
  split_ifs with hwoken hhand
  · simp [numRemoteWorksChecksBeforeSleep]
  · simpa only [if_pos hhand] using rank_afterWake (p := p) (k := k)
  · simpa only [if_neg hhand] using rank_afterWake (p := p) (k := k)

theorem goStep_rank {b : Bool} {victim : Fin n} (hfits : k.Fits) (hhanded : k.Handed)
    (hdown : s.isDown) (hb : b = true ∨ k.pc.exchanges = false)
    (hs : goStep cfg s w k b victim = some (k', e)) :
    k'.rank (e.pendingAfter s.pendingWakeUpRequestCount) <
      k.rank s.pendingWakeUpRequestCount := by
  obtain ⟨pc, hand, running, isSleeping, wakeUpEvent, localQueue⟩ := k
  unfold goStep at hs
  cases pc with
  | top =>
      dsimp only at hs
      split_ifs at hs
      · cases hs
        exact Nat.succ_pos _
      · cases hs
        exact Nat.lt_succ_of_le rank_tryGetWork
  | globalDequeue first =>
      dsimp only at hs
      split at hs
      · cases hs
        exact rank_gotWork.trans_lt (by simp; omega)
      · split_ifs at hs
        · cases hs
          exact rank_gotNoRemote.trans_lt (by simp; omega)
        · cases hs
          simp
          omega
  | steal first j =>
      dsimp only at hs
      split at hs
      · next hj =>
        split at hs
        · cases hs
          exact rank_gotWork.trans_lt (by simp; omega)
        · cases hs
          simp
          omega
      · cases hs
        exact rank_gotNoRemote.trans_lt (by simp; omega)
  | localPop remoteTried =>
      dsimp only at hs
      split at hs
      · cases hs
        refine rank_gotWork.trans_lt ?_
        cases remoteTried with
        | true => simp; omega
        | false => simp; omega
      · split_ifs at hs with hremote
        · cases hs
          exact rank_gotNoWork.trans_lt (by simp [hremote])
        · cases hs
          obtain rfl : remoteTried = false := by simpa using hremote
          simp
  | spinDequeue i =>
      dsimp only at hs
      split at hs
      · cases hs
        simp only [Worker.rank, Pc.rank, Pc.rankInHand, Option.isSome_some, if_true]
        split_ifs <;> omega
      · split_ifs at hs
        · cases hs
          rw [rank_spinNext]
          simp only [Worker.rank, Pc.rank]
          split_ifs <;> omega
        · cases hs
          simp only [Worker.rank, Worker.go, Pc.rank]
          split_ifs <;> omega
  | spinSteal i j =>
      dsimp only at hs
      split at hs
      · split at hs
        · cases hs
          simp only [Worker.rank, Pc.rank, Pc.rankInHand, Option.isSome_some, if_true]
          split_ifs <;> omega
        · cases hs
          simp only [Worker.rank, Worker.go, Pc.rank]
          split_ifs <;> omega
      · cases hs
        rw [rank_spinNext]
        simp only [Worker.rank, Pc.rank]
        split_ifs <;> omega
  | spinState i =>
      dsimp only at hs
      split_ifs at hs with hphase
      · cases hs
        exact Nat.succ_pos _
      · exact absurd hdown hphase
  | spinPending =>
      obtain ⟨rfl, -, -⟩ := hfits
      dsimp only at hs
      split_ifs at hs
      all_goals
        cases hs
        simp
        omega
  | beforeSleep | setSleeping | clearEvent | afterSleep =>
      cases hs
      simp
  | countSleeping =>
      cases hs
      simp [numRemoteWorksChecksBeforeSleep]
  | waitExchange =>
      dsimp only at hs
      split_ifs at hs
      all_goals
        cases hs
        simp
  | waitLocked =>
      cases hs
      dsimp only
      split_ifs
      all_goals simp
  | waiting =>
      obtain ⟨-, he⟩ := Option.ite_none_right_eq_some.mp hs
      cases he
      simp
  | clearSleeping woken | uncountSleeping woken =>
      cases hs
      cases woken with
      | true => simp
      | false => cases hand <;> simp
  | checkNobodySleeps woken =>
      dsimp only at hs
      split_ifs at hs
      · cases hs
        cases woken with
        | true => simp
        | false => cases hand <;> simp
      · cases hs
        refine rank_afterClear.trans_lt ?_
        cases woken with
        | true => simp
        | false =>
            cases hand <;> simp
            omega
  | clearPending woken =>
      cases hs
      refine rank_afterClear.trans_lt ?_
      cases woken with
      | true => simp
      | false =>
          cases hand <;> simp
          omega
  | normalProcessing =>
      cases hs
      dsimp only
      split_ifs
      · cases hand <;> simp
      · cases hand with
        | none =>
            simp
            omega
        | some c =>
            simp
            omega
  | wake pc =>
      have hrank : ∀ pc', (wakeStep cfg s .own b pc).1 = some pc' →
          pc'.rank ((wakeStep cfg s .own b pc).2.pendingAfter s.pendingWakeUpRequestCount) <
            pc.rank s.pendingWakeUpRequestCount := fun pc' => wakeStep_rank hb
      have hpos := rank_pos (p := s.pendingWakeUpRequestCount) pc
      dsimp only at hs
      split at hs
      · next pc' e' he =>
          cases hs
          rw [he] at hrank
          have hless := hrank pc' rfl
          dsimp only at hless
          refine Nat.add_lt_add_right ?_ _
          change 2 + _ < 2 + _
          omega
      · next e' he =>
          cases hs
          refine rank_afterWake.trans_lt ?_
          cases hand with
          | none =>
              simp
              omega
          | some c =>
              simp
              omega
  | resume =>
      obtain ⟨c, -, he⟩ := Option.map_eq_some_iff.mp hs
      cases he
      simp
  | body | returnedAtTop | returnedInSpin => cases hs

/-- A worker outside a body stands still only in the wait for its event. -/
theorem goStep_enabled (hbody : k.pc ≠ .body) (hleft : k.pc.returned = false) (hhanded : k.Handed)
    (hevent : k.pc = .waiting → k.wakeUpEvent = .set) :
    ∃ next, goStep cfg s w k true w = some next := by
  obtain ⟨pc, hand, running, isSleeping, wakeUpEvent, localQueue⟩ := k
  unfold goStep
  cases pc with
  | body => exact absurd rfl hbody
  | returnedAtTop | returnedInSpin => cases hleft
  | waiting =>
      obtain rfl : wakeUpEvent = .set := hevent rfl
      exact ⟨_, rfl⟩
  | resume =>
      obtain ⟨c, rfl⟩ := Option.isSome_iff_exists.mp (hhanded rfl)
      exact ⟨_, rfl⟩
  | wake pc =>
      dsimp only
      split
      · exact ⟨_, rfl⟩
      · exact ⟨_, rfl⟩
  | globalDequeue | spinDequeue =>
      dsimp only
      split
      · exact ⟨_, rfl⟩
      · split_ifs
        · exact ⟨_, rfl⟩
        · exact ⟨_, rfl⟩
  | localPop =>
      dsimp only
      split
      · exact ⟨_, rfl⟩
      · split_ifs
        · exact ⟨_, rfl⟩
        · exact ⟨_, rfl⟩
  | steal | spinSteal =>
      dsimp only
      split_ifs
      · split
        · exact ⟨_, rfl⟩
        · exact ⟨_, rfl⟩
      · exact ⟨_, rfl⟩
  | top | spinState | spinPending | waitExchange | checkNobodySleeps =>
      dsimp only
      split_ifs <;> exact ⟨_, rfl⟩
  | _ => exact ⟨_, rfl⟩

end Rank

section Runs

theorem pending_apply [DecidableEq C] {s : State n O C} (e : Effect n C) :
    (s.apply e).pendingWakeUpRequestCount = e.pendingAfter s.pendingWakeUpRequestCount := by
  cases e with
  | mayBeSleeping up | sleeping up => cases up <;> rfl
  | _ => rfl

variable [DecidableEq O] [DecidableEq C] {cfg : Config n O} {s s' : State n O C}

/-- The worker has left, or runs a body. -/
def Settled (w : Fin n) (s : State n O C) : Prop :=
  (s.worker w).pc.returned = true ∨ (s.worker w).pc = .body

structure Leaving (cfg : Config n O) (w : Fin n) (s : State n O C) : Prop where
  reach : (system cfg C).Reach s
  loopDone : s.closer.loopDone
  down : s.isDown
  unsettled : ¬ Settled w s

theorem Leaving.next {w : Fin n} (h : Leaving cfg w s) :
    ∃ a s', ((system cfg C).restrict (Alone w)).step s a = some s' := by
  obtain ⟨hleft, hbody⟩ := not_or.mp h.unsettled
  have hevent : (s.worker w).pc = .waiting → (s.worker w).wakeUpEvent = .set := by
    intro hpc
    by_contra hset
    exact not_blocked_of_loopDone h.reach h.loopDone w ⟨.inr (.inr hpc), hset⟩
  have hgo : ∃ next, goStep cfg s w (s.worker w) true w = some next :=
    goStep_enabled hbody (by simpa using hleft) ((rousing_of_reach h.reach).handed w) hevent
  obtain ⟨next, hnext⟩ := hgo
  refine ⟨.worker w (.go true w), (s.setWorker w next.1).apply next.2, ?_⟩
  refine (if_pos ⟨rfl, .inl rfl⟩).trans ?_
  exact Option.map_eq_some_iff.mpr ⟨next, hnext, rfl⟩

theorem Leaving.step {w : Fin n} {a : Action n O C} (h : Leaving cfg w s)
    (hs : ((system cfg C).restrict (Alone w)).step s a = some s') :
    Settled w s' ∨ Leaving cfg w s' ∧
      (s'.worker w).rank s'.pendingWakeUpRequestCount <
        (s.worker w).rank s.pendingWakeUpRequestCount := by
  obtain ⟨halone, ha⟩ := Option.ite_none_right_eq_some.mp hs
  have hreach : (system cfg C).Reach s' := h.reach.step ha
  have hdone := loopDone_step h.loopDone ha
  by_cases hsettled : Settled w s'
  · exact .inl hsettled
  cases a with
  | worker u choice =>
      cases choice with
      | go b victim =>
          obtain ⟨rfl, hb⟩ := halone
          obtain ⟨⟨k, e⟩, hk, rfl⟩ := Option.map_eq_some_iff.mp ha
          have hrank := goStep_rank ((inv_of_reach h.reach).fits u)
            ((rousing_of_reach h.reach).handed u) h.down hb hk
          have happlied := apply_worker (s.setWorker u k) e u
          rw [setWorker_same] at happlied
          refine .inr ⟨⟨hreach, hdone, ?_, hsettled⟩, ?_⟩
          · unfold State.isDown
            rw [apply_phase.1]
            exact h.down
          · unfold Worker.rank at hrank ⊢
            rw [pending_apply, happlied.pc, happlied.hand]
            exact hrank
      | _ => exact halone.elim
  | _ => exact halone.elim

/-- After the wake-up loop of `shutdown` no worker is ever blocked on an event that is
not set, and a worker that runs alone comes to a body or leaves. -/
theorem shutdown_leaves_no_sleeper (hs : (system cfg C).Reach s) (hdone : s.closer.loopDone) :
    (∀ as s', (system cfg C).exec s as = some s' → ∀ w, ¬ (s'.worker w).blocked) ∧
      ∀ w, ((system cfg C).restrict (Alone w)).Inevitable (fun _ => True)
        (fun s' => (s'.worker w).pc.returned = true ∨ (s'.worker w).pc = .body) s := by
  refine ⟨fun as s' hexec w => ?_, fun w => ?_⟩
  · exact not_blocked_of_loopDone (hs.exec hexec) (loopDone_exec hdone hexec) w
  · by_cases hsettled : Settled w s
    · exact .now hsettled
    · have hrousing := rousing_of_reach hs
      have hdown : s.isDown := by
        refine hrousing.down (fun hc => ?_) fun hc => ?_
        · rw [hc] at hdone
          exact hdone
        · exact hsettled (.inl (hrousing.left hc w))
      refine StepSystem.inevitable_of_rank (I := Leaving cfg w)
        (fun s => (s.worker w).rank s.pendingWakeUpRequestCount) (fun s h => ?_)
        (fun s a s' h _ ha => h.step ha) ⟨hs, hdone, hdown, hsettled⟩
      obtain ⟨a, s', ha⟩ := h.next
      exact ⟨a, s', trivial, ha⟩

/-- The only worker has announced that it may sleep and looked at `m_state` for the last
time when `shutdown` begins, and finds its event set. -/
theorem shutdown_leaves_no_sleeper_announced : ∃ s : State 1 Unit Unit,
    (system (oneThread true) Unit).Reach s ∧ (s.worker 0).pc = .waitExchange ∧
      s.closer.loopDone ∧ ¬ (s.worker 0).blocked := by
  obtain ⟨s, hs, hpc, hc⟩ := StepSystem.Reach.exists_of_exec
    (M := system (oneThread true) Unit)
    (P := fun s => (s.worker 0).pc = .waitExchange ∧ s.closer = .checkSleeping 1)
    (s := newPool) (.start rfl)
    (List.replicate 136 (.worker 0 (.go true 0)) ++ .shutdown false :: List.replicate 2 .closer ++
      List.replicate 2 (.worker 0 (.go true 0)))
    (by decide +kernel)
  have hdone : s.closer.loopDone := by
    rw [hc]
    exact Nat.le_refl 1
  obtain ⟨hblocked, -⟩ := shutdown_leaves_no_sleeper hs hdone
  exact ⟨s, hs, hpc, hdone, hblocked [] s rfl 0⟩

end Runs

end LevelzAsync.ThreadPool
