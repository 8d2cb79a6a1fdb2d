import LevelzAsync.ThreadPoolInvariant

/-!
# `waitForAllThreadsIdle` over two pools

The caller reads the sleeping counter and the heads of the queues of the pool named
`dtPool` until it looks idle, and then of the pool named `bkPool`, which is the default
pool again. One pass over the default pool can be deceived: a worker whose event is set
is still counted as sleeping, and takes the last coroutine before the queues are
read. But then nobody can fall asleep before the global queue was seen empty, so that
the second pass sees an idle pool.
-/

namespace LevelzAsync.ThreadPool

/-- What the caller reads next; `again` says that it is in the second loop, and `i`
counts the local queues. -/
inductive WaitPc
  | notCalled
  | readCount (again : Bool)
  | readGlobal (again : Bool)
  | readLocal (again : Bool) (i : ℕ)
  | returned
  deriving DecidableEq

structure Pools (m n : ℕ) (O C : Type*) where
  defaultPool : State m O C
  backgroundPool : State n O C
  waiter : WaitPc

inductive PoolsAction (m n : ℕ) (O C : Type*)
  | defaultPool (a : Action m O C)
  | backgroundPool (a : Action n O C)
  | call
  | read (looksEmpty : Bool)
  deriving DecidableEq

section Waiter

variable {m n : ℕ} {O C : Type*}

/-- `bkPool` is `defaultThreadPool()` as well. -/
def Pools.waitedPool (s : Pools m n O C) : Bool → State m O C
  | false => s.defaultPool
  | true => s.defaultPool

/-- What `isEmpty` may return for a queue with the nodes `q`. It reads the head of the
list, which a `dequeue` keeps null until it has moved it on; the coroutine that it
returns counts as in the hand of its worker by then. -/
def State.mayLook (s : State m O C) (q : List C) (looksEmpty : Bool) : Prop :=
  if looksEmpty = true then q = [] ∨ ∃ w, s.hand w ≠ none else q ≠ []

instance [DecidableEq C] (s : State m O C) (q : List C) (looksEmpty : Bool) :
    Decidable (s.mayLook q looksEmpty) :=
  inferInstanceAs (Decidable (if looksEmpty = true then q = [] ∨ ∃ w, s.hand w ≠ none else q ≠ []))

/-- The end of a loop whose condition is false. -/
def WaitPc.leave (again : Bool) : WaitPc := if again = true then .returned else .readCount true

variable [DecidableEq C]

/-- The caller's next read, in `sleepingThreadCount` or in `haveWork`. -/
def Pools.read (cfg : Config m O) (s : Pools m n O C) (looksEmpty : Bool) :
    Option (Pools m n O C) :=
  match s.waiter with
  | .notCalled | .returned => none
  | .readCount again =>
      some { s with
        waiter := if (s.waitedPool again).sleepingThreadCount < m then .readCount again
          else .readGlobal again }
  | .readGlobal again =>
      if (s.waitedPool again).mayLook (s.waitedPool again).globalQueue looksEmpty then
        some { s with
          waiter := if looksEmpty = false then .readCount again
            else if cfg.noLocalWork = true then .leave again else .readLocal again 0 }
      else none
  | .readLocal again i =>
      if h : i < m then
        if (s.waitedPool again).mayLook ((s.waitedPool again).worker ⟨i, h⟩).localQueue looksEmpty
        then
          some { s with
            waiter := if looksEmpty = false then .readCount again else .readLocal again (i + 1) }
        else none
      else some { s with waiter := .leave again }

variable [DecidableEq O]

def poolsStep (cfg : Config m O) (bkCfg : Config n O) (s : Pools m n O C) :
    PoolsAction m n O C → Option (Pools m n O C)
  | .defaultPool a => (step cfg s.defaultPool a).map fun p => { s with defaultPool := p }
  | .backgroundPool a => (step bkCfg s.backgroundPool a).map fun p => { s with backgroundPool := p }
  | .call => if s.waiter = .notCalled then some { s with waiter := .readCount false } else none
  | .read looksEmpty => s.read cfg looksEmpty

def poolsSystem (cfg : Config m O) (bkCfg : Config n O) (C : Type*) [DecidableEq C] :
    StepSystem (Pools m n O C) (PoolsAction m n O C) where
  start s := s = ⟨newPool, newPool, .notCalled⟩
  step := poolsStep cfg bkCfg

end Waiter

section Conditions

variable {m n : ℕ} {O C : Type*}

def Action.schedules : Action n O C → Bool
  | .schedule _ _ | .worker _ (.schedule _) => true
  | _ => false

def NothingElse (s : Pools m n O C) : PoolsAction m n O C → Prop
  | .defaultPool a => s.waiter = .notCalled ∨ a.schedules = false
  | .backgroundPool a => s.waiter = .notCalled ∨ a.schedules = false
  | _ => True

instance (s : Pools m n O C) (a : PoolsAction m n O C) : Decidable (NothingElse s a) :=
  match a with
  | .defaultPool a => inferInstanceAs (Decidable (s.waiter = .notCalled ∨ a.schedules = false))
  | .backgroundPool a => inferInstanceAs (Decidable (s.waiter = .notCalled ∨ a.schedules = false))
  | .call => inferInstanceAs (Decidable True)
  | .read _ => inferInstanceAs (Decidable True)

structure Idle (s : State n O C) : Prop where
  queue : ∀ key, s.queue key = []
  hand : ∀ w, s.hand w = none
  running : ∀ w, (s.worker w).running = []

end Conditions

section Workers

variable {n : ℕ} {O C : Type*} {s s' : State n O C} {w : Fin n} {k k' : Worker n C}
  {e : Effect n C}

theorem idle_newPool : Idle (newPool : State n O C) :=
  ⟨fun key => by cases key <;> rfl, fun _ => rfl, fun _ => rfl⟩

theorem free_of_settled (hfits : k.Fits) (h : k.settled = true) : k.Free := by
  obtain ⟨-, hpc⟩ := Bool.and_eq_true_iff.mp h
  unfold Worker.Fits at hfits
  cases hp : k.pc with
  | spinSteal i j | spinPending =>
      rw [hp] at hfits
      exact hfits
  | beforeSleep | waitExchange | waitLocked | waiting | clearEvent | afterSleep =>
      rw [hp] at hfits
      exact hfits.2
  | _ =>
      rw [hp] at hpc
      cases hpc

theorem settled_of_asleep (hfits : k.Fits) (h : k.asleep = true) : k.settled = true := by
  unfold Worker.Fits at hfits
  unfold Worker.asleep at h
  unfold Worker.settled
  cases hp : k.pc with
  | waitExchange | waitLocked | waiting | clearEvent | afterSleep =>
      rw [hp] at hfits
      rw [hfits.1]
      rfl
  | _ =>
      rw [hp] at h
      cases h

/-- When the sleeping counter is full, every worker is counted. -/
theorem Inv.allAsleep (h : Inv s) (hfull : ¬ s.sleepingThreadCount < n) (w : Fin n) :
    (s.worker w).asleep = true := by
  rw [h.sleeping] at hfull
  by_contra hw
  apply hfull
  have hlt : ∑ u, (s.worker u).asleep.toNat < ∑ _u : Fin n, 1 := by
    apply Finset.sum_lt_sum
    · exact fun u _ => Bool.toNat_le _
    · refine ⟨w, Finset.mem_univ w, ?_⟩
      rw [Bool.not_eq_true] at hw
      rw [hw]
      exact Nat.one_pos
  simpa using hlt

variable [DecidableEq C]

theorem Idle.applyWakes (h : Idle s) (he : e.wakes = true) : Idle (s.apply e) := by
  refine ⟨fun key => ?_, fun w => ?_, fun w => ?_⟩
  · rw [(apply_of_keepsQueues (keepsQueues_of_wakes he)).1]
    exact h.queue key
  · rw [apply_hand]
    exact h.hand w
  · rw [(apply_worker s e w).running]
    exact h.running w

omit [DecidableEq C] in
theorem Idle.congr (h : Idle s) (hs : SameWork s s') : Idle s' := by
  refine ⟨fun key => ?_, fun w => ?_, fun w => ?_⟩
  · rw [hs.queue]
    exact h.queue key
  · rw [hs.hand]
    exact h.hand w
  · rw [hs.worker]
    exact h.running w

/-- In an idle pool there is nothing to take and nothing to resume. -/
theorem Idle.worker (h : Idle s) (hm : Moves s w (s.worker w) k e)
    (hnew : ∀ c, ¬ (e = .globalEnqueue c ∨ ∃ v, e = .localEnqueue v c)) :
    Idle ((s.setWorker w k).apply e) := by
  have hhands := hm.hands
  have hkeeps : e.keepsQueues = true := by
    cases e with
    | takeGlobal c =>
        obtain ⟨⟨q, hq⟩, -⟩ := hhands
        exact absurd ((h.queue none).symm.trans hq) nofun
    | takeLocal v c =>
        obtain ⟨⟨q, hq⟩, -⟩ := hhands
        exact absurd ((h.queue (some v)).symm.trans hq) nofun
    | globalEnqueue c => exact absurd (.inl rfl) (hnew c)
    | localEnqueue v c => exact absurd (.inr ⟨v, rfl⟩) (hnew c)
    | resume c =>
        have hnone : (s.worker w).hand = none := h.hand w
        exact absurd (hnone.symm.trans hhands.1) nofun
    | _ => rfl
  have hrunning : k.running = (s.worker w).running ∨ k.running = (s.worker w).running.tail := by
    cases e with
    | takeGlobal c | takeLocal v c | globalEnqueue c | localEnqueue v c | resume c => cases hkeeps
    | _ => exact hhands.2
  refine ⟨fun key => ?_, fun u => ?_, fun u => ?_⟩
  · rw [(apply_of_keepsQueues hkeeps).1, queue_setWorker hm.localQueue]
    exact h.queue key
  · rw [apply_hand, hand_setWorker]
    split_ifs
    · exact (hand_of_keepsQueues hkeeps hhands).trans (h.hand w)
    · exact h.hand u
  · rw [(apply_worker (s.setWorker w k) e u).running]
    by_cases hu : u = w
    · rw [hu, setWorker_same]
      rw [h.running w] at hrunning
      exact hrunning.elim id id
    · rw [setWorker_other hu]
      exact h.running u

variable [DecidableEq O] {cfg : Config n O}

theorem Idle.step {a : Action n O C} (hi : Inv s) (h : Idle s) (ha : a.schedules = false)
    (hs : step cfg s a = some s') : Idle s' := by
  rcases step_cases hs with ⟨w, choice, k, e, rfl, hk, rfl⟩ | ⟨o, c, rfl, -, -⟩ | ⟨e, he, hsame⟩
  · apply h.worker (workerStep_moves (hi.fits w) hk)
    intro c hc
    obtain ⟨c', rfl⟩ := workerStep_enqueues (hi.fits w) hk hc
    cases ha
  · cases ha
  · exact (h.applyWakes he).congr hsame

omit [DecidableEq O] in
theorem scheduled_le_apply (c : C) : s.scheduled c ≤ (s.apply e).scheduled c := by
  cases e with
  | mayBeSleeping up | sleeping up =>
      cases up with
      | true => exact le_rfl
      | false => exact le_rfl
  | globalEnqueue c' | localEnqueue v c' =>
      change s.scheduled c ≤ Function.update s.scheduled c' (s.scheduled c' + 1) c
      rw [Function.update_apply]
      split_ifs with hc
      · rw [hc]
        exact Nat.le_succ _
      · exact le_rfl
  | _ => exact le_rfl

omit [DecidableEq O] in
theorem apply_scheduled {c : C} (he : e = .globalEnqueue c ∨ ∃ v, e = .localEnqueue v c) :
    (s.apply e).scheduled c = s.scheduled c + 1 := by
  rcases he with rfl | ⟨v, rfl⟩
  · exact Function.update_self ..
  · exact Function.update_self ..

/-- A pool that nothing was ever scheduled on is idle. -/
def State.Unused (s : State n O C) : Prop := (∀ c, s.scheduled c = 0) → Idle s

theorem State.Unused.step {a : Action n O C} (hi : Inv s) (h : s.Unused)
    (hs : step cfg s a = some s') : s'.Unused := by
  intro hnone
  rcases step_cases hs with ⟨w, choice, k, e, rfl, hk, rfl⟩ | ⟨o, c, rfl, -, rfl⟩ | ⟨e, he, hsame⟩
  · have hbefore : ∀ c, s.scheduled c = 0 := fun c =>
      Nat.le_zero.mp ((scheduled_le_apply (s := s.setWorker w k) c).trans (hnone c).le)
    apply (h hbefore).worker (workerStep_moves (hi.fits w) hk)
    intro c hc
    have hscheduled := hnone c
    rw [apply_scheduled hc] at hscheduled
    cases hscheduled
  · have hscheduled := hnone c
    rw [apply_scheduled (.inl rfl)] at hscheduled
    cases hscheduled
  · rw [hsame.scheduled] at hnone
    have hbefore : ∀ c, s.scheduled c = 0 := fun c =>
      Nat.le_zero.mp ((scheduled_le_apply c).trans (hnone c).le)
    exact ((h hbefore).applyWakes he).congr hsame

/-- Nobody settles before the global queue is empty. -/
theorem State.Attended.step {a : Action n O C} (hi : Inv s) (h : s.Attended Worker.settled)
    (ha : a.schedules = false) (hs : step cfg s a = some s') : s'.Attended Worker.settled := by
  rcases step_cases hs with ⟨w, choice, k, e, rfl, hk, rfl⟩ | ⟨o, c, rfl, -, -⟩ | ⟨e, he, hsame⟩
  · exact h.worker (fun _ _ _ _ => Applied.settled) (workerStep_moves (hi.fits w) hk).settled
  · cases ha
  · exact (h.applyWakes (fun _ _ _ _ => Applied.settled) he).congr hsame.worker hsame.globalQueue

end Workers

section Runs

variable {m n : ℕ} {O C : Type*} [DecidableEq O] [DecidableEq C] {cfg : Config m O}
  {bkCfg : Config n O} {s s' : Pools m n O C}

/-- What the reads of the caller have shown of the default pool. -/
def WaitPc.Shown (d : State m O C) : WaitPc → Prop
  | .notCalled | .readCount false | .readGlobal false => True
  | .readLocal false _ | .readCount true => d.Attended Worker.settled
  | .readGlobal true | .readLocal true _ | .returned => Idle d

structure Waiting (s : Pools m n O C) : Prop where
  inv : Inv s.defaultPool
  shown : s.waiter.Shown s.defaultPool
  backgroundInv : Inv s.backgroundPool
  unused : s.backgroundPool.Unused

omit [DecidableEq O] [DecidableEq C] in
theorem attended_of_looksEmpty {d : State m O C} (h : Inv d)
    (hlook : d.mayLook d.globalQueue true) : d.Attended Worker.settled := by
  rcases hlook with hempty | ⟨w, hw⟩
  · exact .inl hempty
  · refine .inr ⟨w, ?_⟩
    by_contra hsettled
    exact hw (free_of_settled (h.fits w) (by simpa using hsettled)).1

omit [DecidableEq O] [DecidableEq C] in
theorem idle_of_full {d : State m O C} (h : Inv d) (hattended : d.Attended Worker.settled)
    (hfull : ¬ d.sleepingThreadCount < m) : Idle d := by
  have hsettled : ∀ w, (d.worker w).settled = true :=
    fun w => settled_of_asleep (h.fits w) (h.allAsleep hfull w)
  have hfree : ∀ w, (d.worker w).Free := fun w => free_of_settled (h.fits w) (hsettled w)
  refine ⟨fun key => ?_, fun w => (hfree w).1, fun w => (hfree w).2.1⟩
  cases key with
  | some w => exact (hfree w).2.2
  | none =>
      rcases hattended with hempty | ⟨w, hw⟩
      · exact hempty
      · rw [hsettled w] at hw
        cases hw

theorem WaitPc.Shown.step {pc : WaitPc} {a : Action m O C} {d d' : State m O C} (hi : Inv d)
    (h : pc.Shown d) (ha : a.schedules = false) (hd : ThreadPool.step cfg d a = some d') :
    pc.Shown d' := by
  cases pc with
  | notCalled => trivial
  | returned => exact Idle.step hi h ha hd
  | readCount again =>
      cases again with
      | false => trivial
      | true => exact State.Attended.step hi h ha hd
  | readGlobal again =>
      cases again with
      | false => trivial
      | true => exact Idle.step hi h ha hd
  | readLocal again i =>
      cases again with
      | false => exact State.Attended.step hi h ha hd
      | true => exact Idle.step hi h ha hd

theorem Waiting.defaultPool {a : Action m O C} {d : State m O C} (h : Waiting s)
    (ha : s.waiter = .notCalled ∨ a.schedules = false) (hd : step cfg s.defaultPool a = some d) :
    Waiting { s with defaultPool := d } := by
  refine ⟨h.inv.step hd, ?_, h.backgroundInv, h.unused⟩
  change s.waiter.Shown d
  rcases ha with hcall | ha
  · rw [hcall]
    trivial
  · exact h.shown.step h.inv ha hd

omit [DecidableEq O] [DecidableEq C] in
theorem Idle.attended {d : State m O C} (h : Idle d) : d.Attended Worker.settled :=
  .inl (h.queue none)

omit [DecidableEq O] [DecidableEq C] in
/-- A queue that is not empty sends the caller back to the counter. -/
theorem shown_readCount {again : Bool} {i : ℕ} {d : State m O C}
    (h : (WaitPc.readLocal again i).Shown d ∨ (WaitPc.readGlobal again).Shown d) :
    (WaitPc.readCount again).Shown d := by
  cases again with
  | false => trivial
  | true =>
      rcases h with hidle | hidle
      · exact Idle.attended hidle
      · exact Idle.attended hidle

omit [DecidableEq O] [DecidableEq C] in
theorem shown_leave {again : Bool} {i : ℕ} {d : State m O C}
    (h : (WaitPc.readLocal again i).Shown d) : (WaitPc.leave again).Shown d := by
  cases again with
  | false => exact h
  | true => exact h

omit [DecidableEq O] [DecidableEq C] in
theorem shown_next {again : Bool} {i : ℕ} {d : State m O C}
    (h : (WaitPc.readLocal again i).Shown d) : (WaitPc.readLocal again (i + 1)).Shown d := by
  cases again with
  | false => exact h
  | true => exact h

omit [DecidableEq O] [DecidableEq C] in
theorem shown_readGlobal {again : Bool} {d : State m O C} (hi : Inv d)
    (h : (WaitPc.readCount again).Shown d) (hfull : ¬ d.sleepingThreadCount < m) :
    (WaitPc.readGlobal again).Shown d := by
  cases again with
  | false => trivial
  | true => exact idle_of_full hi h hfull

omit [DecidableEq O] [DecidableEq C] in
theorem shown_readLocal {again : Bool} {i : ℕ} {d : State m O C} (hi : Inv d)
    (h : (WaitPc.readGlobal again).Shown d) (hlook : d.mayLook d.globalQueue true) :
    (WaitPc.readLocal again i).Shown d := by
  cases again with
  | false => exact attended_of_looksEmpty hi hlook
  | true => exact h

omit [DecidableEq O] [DecidableEq C] in
/-- Both loops read the default pool. -/
theorem waitedPool_eq (s : Pools m n O C) (again : Bool) : s.waitedPool again = s.defaultPool := by
  cases again with
  | false => rfl
  | true => rfl

omit [DecidableEq O] in
theorem Waiting.read {looksEmpty : Bool} (h : Waiting s)
    (hs : s.read cfg looksEmpty = some s') : Waiting s' := by
  have hshown := h.shown
  unfold Pools.read at hs
  simp only [waitedPool_eq] at hs
  cases hw : s.waiter with
  | notCalled | returned =>
      rw [hw] at hs
      cases hs
  | readCount again =>
      rw [hw] at hs hshown
      cases hs
      refine ⟨h.inv, ?_, h.backgroundInv, h.unused⟩
      dsimp only
      split_ifs with hfull
      · exact hshown
      · exact shown_readGlobal h.inv hshown hfull
  | readGlobal again =>
      rw [hw] at hs hshown
      obtain ⟨hlook, hs⟩ := Option.ite_none_right_eq_some.mp hs
      cases hs
      refine ⟨h.inv, ?_, h.backgroundInv, h.unused⟩
      dsimp only
      split_ifs with hfull hlocal
      · exact shown_readCount (i := 0) (.inr hshown)
      · rw [Bool.not_eq_false] at hfull
        rw [hfull] at hlook
        exact shown_leave (i := 0) (shown_readLocal h.inv hshown hlook)
      · rw [Bool.not_eq_false] at hfull
        rw [hfull] at hlook
        exact shown_readLocal h.inv hshown hlook
  | readLocal again i =>
      rw [hw] at hs hshown
      dsimp only at hs
      split_ifs at hs with hi hlook hfull
      · cases hs
        exact ⟨h.inv, shown_readCount (.inl hshown), h.backgroundInv, h.unused⟩
      · cases hs
        exact ⟨h.inv, shown_next hshown, h.backgroundInv, h.unused⟩
      · cases hs
        exact ⟨h.inv, shown_leave hshown, h.backgroundInv, h.unused⟩

theorem Waiting.step {a : PoolsAction m n O C} (h : Waiting s) (ha : NothingElse s a)
    (hs : poolsStep cfg bkCfg s a = some s') : Waiting s' := by
  cases a with
  | defaultPool a =>
      obtain ⟨d, hd, rfl⟩ := Option.map_eq_some_iff.mp hs
      exact h.defaultPool ha hd
  | backgroundPool a =>
      obtain ⟨b, hb, rfl⟩ := Option.map_eq_some_iff.mp hs
      exact ⟨h.inv, h.shown, h.backgroundInv.step hb, h.unused.step h.backgroundInv hb⟩
  | call =>
      obtain ⟨-, he⟩ := Option.ite_none_right_eq_some.mp hs
      cases he
      exact ⟨h.inv, trivial, h.backgroundInv, h.unused⟩
  | read looksEmpty => exact h.read hs

theorem waiting_of_reach (hs : (poolsSystem cfg bkCfg C).ReachWhile NothingElse s) :
    Waiting s := by
  refine StepSystem.ReachWhile.invariant (fun s hstart => ?_) (fun s a s' h ha hs => h.step ha hs)
    hs
  obtain rfl : s = ⟨newPool, newPool, .notCalled⟩ := hstart
  exact ⟨inv_newPool, trivial, inv_newPool, fun _ => idle_newPool⟩

/-- When `waitForAllThreadsIdle` returns and nothing was scheduled since it was called, the
default pool is idle; the background pool is if nothing was ever scheduled on it. -/
theorem waitForAllThreadsIdle_idle (hs : (poolsSystem cfg bkCfg C).ReachWhile NothingElse s)
    (hreturned : s.waiter = .returned) :
    Idle s.defaultPool ∧ ((∀ c, s.backgroundPool.scheduled c = 0) → Idle s.backgroundPool) := by
  have h := waiting_of_reach hs
  have hshown := h.shown
  rw [hreturned] at hshown
  exact ⟨hshown, h.unused⟩

end Runs

/-- The background pool with its five threads, and one thread that calls from outside. -/
def fiveThreads : Config 5 Unit := ⟨by decide, true, fun _ => none⟩

/-- The two pools on a machine with one processor. -/
def twoPools : StepSystem (Pools 1 5 Unit Unit) (PoolsAction 1 5 Unit Unit) :=
  poolsSystem (oneThread false) fiveThreads Unit

/-- The worker of the default pool falls asleep, and the caller sees that twice. -/
def callAndReturn : List (PoolsAction 1 5 Unit Unit) :=
  List.replicate 341 (.defaultPool (.worker 0 (.go true 0))) ++
    .call :: List.replicate 8 (.read true)

/-- The worker resumes a coroutine before it falls asleep. -/
theorem waitForAllThreadsIdle_idle_resumed : ∃ s : Pools 1 5 Unit Unit,
    twoPools.Reach s ∧ s.waiter = .returned ∧ s.defaultPool.resumed () = 1 ∧
      Idle s.defaultPool := by
  obtain ⟨s, hs, hreturned, hresumed⟩ := StepSystem.Reach.exists_of_exec
    (M := twoPools.restrict NothingElse)
    (P := fun s => s.waiter = .returned ∧ s.defaultPool.resumed () = 1)
    (s := ⟨newPool, newPool, .notCalled⟩) (.start rfl)
    (.defaultPool (.schedule () ()) ::
      List.replicate 4 (.defaultPool (.worker 0 (.go true 0))) ++
      .defaultPool (.worker 0 .finish) :: callAndReturn)
    (by decide +kernel)
  obtain ⟨hidle, -⟩ := waitForAllThreadsIdle_idle hs.reachWhile hreturned
  exact ⟨s, hs.reachWhile.reach, hreturned, hresumed, hidle⟩

/-- A coroutine is scheduled on the background pool, whose workers do not come to it. -/
theorem waitForAllThreadsIdle_leaves_queued : ∃ s : Pools 1 5 Unit Unit,
    twoPools.ReachWhile NothingElse s ∧ s.waiter = .returned ∧
      s.backgroundPool.globalQueue = [()] := by
  obtain ⟨s, hs, hfinal⟩ := StepSystem.Reach.exists_of_exec
    (M := twoPools.restrict NothingElse)
    (P := fun s => s.waiter = .returned ∧ s.backgroundPool.globalQueue = [()])
    (s := ⟨newPool, newPool, .notCalled⟩) (.start rfl)
    (.backgroundPool (.schedule () ()) :: .backgroundPool (.caller () true) ::
      .backgroundPool (.caller () true) :: callAndReturn)
    (by decide +kernel)
  exact ⟨s, hs.reachWhile, hfinal⟩

end LevelzAsync.ThreadPool
