import Mathlib.Data.Fintype.Sum
import LevelzAsync.ThreadPoolLeaving

/-!
# A shutdown returns when the bodies do

Once `shutdown` has stored the state, a worker goes round its loop again only for a
coroutine or a pending wake-up request. A change of `m_pendingWakeUpRequestCount` puts the
others back by two steps at most, and between two coroutines a worker changes it four times
at most. So when nobody schedules any more and the bodies that run come to their ends, all
workers leave, and `shutdown` joins them.
-/

namespace LevelzAsync.ThreadPool

variable {n : ℕ} {O C : Type*}

def WakePc.changes : WakePc n → ℕ
  | .loadPending | .takePending _ => 2
  | _ => 1

/-- How often a worker may still change it before it comes to a body or leaves. -/
def Pc.changes (inHand : Bool) : Pc n → ℕ
  | .body | .resume | .spinState _ | .returnedAtTop | .returnedInSpin => 0
  | .wake pc => pc.changes + if inHand = true then 0 else 2
  | .clearSleeping false | .uncountSleeping false | .checkNobodySleeps false
  | .clearPending false => if inHand = true then 1 else 3
  | .beforeSleep | .waitExchange | .waitLocked | .waiting | .clearEvent | .afterSleep
  | .clearSleeping true | .uncountSleeping true | .checkNobodySleeps true
  | .clearPending true => 3
  | .normalProcessing => if inHand = true then 2 else 4
  | .spinPending => 4
  | .spinDequeue i | .spinSteal i _ => if i < numRemoteWorksChecksBeforeSleep then 2 else 4
  | .top | .globalDequeue _ | .steal _ _ | .localPop _ | .setSleeping | .countSleeping => 2

def Worker.changes (k : Worker n C) : ℕ := k.pc.changes k.hand.isSome

def Effect.changes : Effect n C → ℕ
  | .pending _ => 1
  | _ => 0

/-- A worker is in a body only while it resumes a coroutine. -/
def Worker.Resuming (k : Worker n C) : Prop := k.pc = .body → k.running ≠ []

section Changes

variable {cfg : Config n O} {s : State n O C} {w : Fin n} {k k' : Worker n C} {e : Effect n C}

attribute [local simp] WakePc.changes Pc.changes Worker.changes Worker.go Effect.changes

theorem changes_le (pc : Pc n) (inHand : Bool) : pc.changes inHand ≤ 4 := by
  cases pc with
  | wake pc =>
      cases pc <;> cases inHand <;> simp
  | spinDequeue i | spinSteal i j =>
      simp only [Pc.changes]
      split_ifs <;> omega
  | clearSleeping woken | uncountSleeping woken | checkNobodySleeps woken | clearPending woken =>
      cases woken <;> cases inHand <;> simp
  | normalProcessing => cases inHand <;> simp
  | _ => simp

theorem wakeStep_changes (cfg : Config n O) (s : State n O C) (caller : Caller) (b : Bool)
    (pc : WakePc n) : (wakeStep cfg s caller b pc).1.elim 0 WakePc.changes +
      (wakeStep cfg s caller b pc).2.changes ≤ pc.changes := by
  unfold wakeStep
  cases pc with
  | checkAllSleeping =>
      dsimp only
      split
      · split_ifs <;> simp
      · simp
  | chooseImmediate | loadRequests => simp
  | _ =>
      dsimp only
      split_ifs <;> simp

/-- What a worker does to its own number of changes once `m_state` is stored. -/
structure Settles (down : Prop) (k k' : Worker n C) (e : Effect n C) : Prop where
  changes : down → k'.changes + e.changes ≤ k.changes
  resuming : k'.Resuming

variable {down : Prop}

theorem Settles.go {pc : Pc n} (hpc : pc.changes k.hand.isSome + e.changes ≤ k.changes)
    (hbody : pc ≠ .body) : Settles down k (k.go pc) e :=
  ⟨fun _ => hpc, fun h => absurd h hbody⟩

theorem settles_afterWake {m : ℕ} (hm : m + e.changes ≤ k.changes)
    (hk : m = if k.hand.isSome = true then 0 else 2) : Settles down k k.afterWake e := by
  subst hk
  unfold Worker.afterWake
  split_ifs at hm ⊢ with hhand hrunning
  · exact .go (by simpa using hm) nofun
  · exact .go (by simpa using hm) nofun
  · exact ⟨fun _ => (Nat.add_le_add_right (Nat.zero_le 2) _).trans hm,
      fun _ hnil => hrunning (List.isEmpty_iff.mpr hnil)⟩

theorem settles_gotWork {c : C} (hk : 2 + e.changes ≤ k.changes) :
    Settles down k (k.gotWork c) e := by
  unfold Worker.gotWork
  split_ifs
  · exact ⟨fun _ => hk, nofun⟩
  · exact ⟨fun _ => (Nat.add_le_add_right (Nat.zero_le 2) _).trans hk, nofun⟩

theorem settles_gotNoWork (hk : 2 ≤ k.changes) : Settles down k k.gotNoWork .quiet := by
  unfold Worker.gotNoWork
  split_ifs with hrunning
  · exact .go hk nofun
  · exact ⟨fun _ => Nat.zero_le _, fun _ hnil => hrunning (List.isEmpty_iff.mpr hnil)⟩

theorem settles_gotNoRemote {first : Bool} (hk : 2 ≤ k.changes) :
    Settles down k (k.gotNoRemote first) .quiet := by
  unfold Worker.gotNoRemote
  split_ifs
  · exact .go hk nofun
  · exact settles_gotNoWork hk

theorem settles_tryGetWork {noLocalWork b : Bool} (hk : 2 ≤ k.changes) :
    Settles down k (k.tryGetWork noLocalWork b) .quiet := by
  unfold Worker.tryGetWork
  split_ifs
  · exact .go hk nofun
  · exact .go hk nofun

theorem settles_spinNext {i : ℕ}
    (hk : (if i < numRemoteWorksChecksBeforeSleep then 2 else 4) ≤ k.changes) :
    Settles down k (k.spinNext i) .quiet := by
  unfold Worker.spinNext
  split_ifs at hk ⊢
  · exact .go (Nat.zero_le _) nofun
  · exact .go hk nofun

theorem settles_afterClear {woken : Bool} (hk : (if woken = true then 2
    else if k.hand.isSome = true then 0 else 2) + e.changes ≤ k.changes) :
    Settles down k (k.afterClear woken) e := by
  unfold Worker.afterClear
  split_ifs at hk ⊢ with hwoken hhand
  · exact .go hk nofun
  · exact settles_afterWake hk (if_pos hhand).symm
  · exact settles_afterWake hk (if_neg hhand).symm

/-- A step of the worker loop; in the spin it reads the new `m_state`. -/
theorem goStep_settles {b : Bool} {victim : Fin n}
    (hs : goStep cfg s w k b victim = some (k', e)) : Settles s.isDown k k' e := by
  obtain ⟨pc, hand, running, isSleeping, wakeUpEvent, localQueue⟩ := k
  unfold goStep at hs
  cases pc with
  | top =>
      dsimp only at hs
      split_ifs at hs
      · cases hs
        exact .go (Nat.zero_le _) nofun
      · cases hs
        exact settles_tryGetWork le_rfl
  | globalDequeue first =>
      dsimp only at hs
      split at hs
      · cases hs
        exact settles_gotWork le_rfl
      · split_ifs at hs
        · cases hs
          exact settles_gotNoRemote le_rfl
        · cases hs
          exact .go le_rfl nofun
  | steal first j =>
      dsimp only at hs
      split at hs
      · split at hs
        · cases hs
          exact settles_gotWork le_rfl
        · cases hs
          exact .go le_rfl nofun
      · cases hs
        exact settles_gotNoRemote le_rfl
  | localPop remoteTried =>
      dsimp only at hs
      split at hs
      · cases hs
        exact settles_gotWork le_rfl
      · split_ifs at hs
        · cases hs
          exact settles_gotNoWork le_rfl
        · cases hs
          exact .go le_rfl nofun
  | spinDequeue i =>
      dsimp only at hs
      split at hs
      · cases hs
        refine ⟨fun _ => ?_, nofun⟩
        simp only [Worker.changes, Pc.changes, Option.isSome_some, if_true, Effect.changes]
        split_ifs <;> omega
      · split_ifs at hs
        · cases hs
          exact settles_spinNext le_rfl
        · cases hs
          exact .go le_rfl nofun
  | spinSteal i j =>
      dsimp only at hs
      split at hs
      · split at hs
        · cases hs
          refine ⟨fun _ => ?_, nofun⟩
          simp only [Worker.changes, Pc.changes, Option.isSome_some, if_true, Effect.changes]
          split_ifs <;> omega
        · cases hs
          exact .go le_rfl nofun
      · cases hs
        exact settles_spinNext le_rfl
  | spinState i =>
      dsimp only at hs
      split_ifs at hs with hphase
      · cases hs
        exact .go le_rfl nofun
      · cases hs
        exact ⟨fun hdown => absurd hdown hphase, nofun⟩
  | spinPending =>
      dsimp only at hs
      split_ifs at hs
      · cases hs
        exact .go (by cases hand <;> simp) nofun
      · cases hs
        exact .go (by simp) nofun
      · cases hs
        exact .go (by simp) nofun
  | setSleeping | countSleeping | beforeSleep | clearEvent | afterSleep =>
      cases hs
      exact ⟨fun _ => Nat.le_of_ble_eq_true rfl, nofun⟩
  | waitExchange =>
      dsimp only at hs
      split_ifs at hs
      · cases hs
        exact ⟨fun _ => le_rfl, nofun⟩
      · cases hs
        exact .go le_rfl nofun
  | waitLocked =>
      cases hs
      split_ifs
      · exact .go le_rfl nofun
      · exact .go le_rfl nofun
  | waiting =>
      obtain ⟨-, he⟩ := Option.ite_none_right_eq_some.mp hs
      cases he
      exact .go le_rfl nofun
  | clearSleeping woken | uncountSleeping woken =>
      cases hs
      refine ⟨fun _ => ?_, nofun⟩
      cases woken <;> exact le_rfl
  | checkNobodySleeps woken =>
      dsimp only at hs
      split_ifs at hs
      · cases hs
        refine .go ?_ nofun
        cases woken <;> exact le_rfl
      · cases hs
        refine settles_afterClear ?_
        cases woken <;> cases hand <;> simp
  | clearPending woken =>
      cases hs
      refine settles_afterClear ?_
      cases woken <;> cases hand <;> simp
  | normalProcessing =>
      cases hs
      split_ifs
      · exact .go (by cases hand <;> simp) nofun
      · exact .go (by cases hand <;> simp) nofun
  | wake pc =>
      have hwake := wakeStep_changes cfg s .own b pc
      dsimp only at hs
      split at hs
      · next pc' e' he =>
          cases hs
          rw [he] at hwake
          refine .go ?_ nofun
          change pc'.changes + _ + _ ≤ pc.changes + _
          change pc'.changes + e.changes ≤ _ at hwake
          omega
      · next e' he =>
          cases hs
          rw [he] at hwake
          change 0 + e.changes ≤ _ at hwake
          refine settles_afterWake ?_ rfl
          change _ + e.changes ≤ pc.changes + _
          omega
  | resume =>
      obtain ⟨c, -, he⟩ := Option.map_eq_some_iff.mp hs
      cases he
      exact ⟨fun _ => le_rfl, fun _ => List.cons_ne_nil _ _⟩
  | body | returnedAtTop | returnedInSpin => cases hs

end Changes

section Runs

/-- Bodies come to their ends and nobody schedules; an exchange fails only when the word has
changed. -/
def Closing (s : State n O C) : Action n O C → Prop
  | .worker w (.go b _) => b = true ∨ (s.worker w).pc.exchanges = false
  | .worker _ .finish | .closer => True
  | .caller o b => b = true ∨ (s.outside o).any (fun pc => (Pc.wake pc).exchanges) = false
  | _ => False

instance (s : State n O C) (a : Action n O C) : Decidable (Closing s a) :=
  match a with
  | .worker w (.go b _) =>
      inferInstanceAs (Decidable (b = true ∨ (s.worker w).pc.exchanges = false))
  | .worker _ .finish | .closer => inferInstanceAs (Decidable True)
  | .caller o b => inferInstanceAs
      (Decidable (b = true ∨ (s.outside o).any (fun pc => (Pc.wake pc).exchanges) = false))
  | .worker _ (.schedule _) | .worker _ .onReady | .worker _ (.yield _) | .schedule _ _
  | .shutdown _ => inferInstanceAs (Decidable False)

def Closer.distance : Closer n → ℕ
  | .notCalled | .returned => 0
  | .checkSleeping i => 2 * (n - i) + 1
  | .setEvent i => 2 * (n - i)

/-- Where an agent is, and whether it has a coroutine in its hand. A wake-up call from
outside is done when it returns. -/
def State.point (s : State n O C) : Fin n ⊕ O → Pc n × Bool
  | .inl w => ((s.worker w).pc, (s.worker w).hand.isSome)
  | .inr o => ((s.outside o).elim .returnedInSpin .wake, true)

def rankAt (pending : ℕ) (p : Pc n × Bool) : ℕ := p.1.rank pending p.2

def changesAt (p : Pc n × Bool) : ℕ := p.1.changes p.2

/-- The coroutines that a worker has in its queue, in its hand, or resumes. -/
def Worker.tasks (k : Worker n C) : ℕ :=
  k.localQueue.length + k.hand.toList.length + k.running.length

def State.tasks (s : State n O C) : ℕ := s.globalQueue.length + ∑ w, (s.worker w).tasks

/-- What a change of `m_pendingWakeUpRequestCount` may cost the others. -/
def toll (n : ℕ) (O : Type*) [Fintype O] : ℕ := 2 * Fintype.card (Fin n ⊕ O) + 1

/-- Steps that are left until every worker is in a body or gone. -/
def State.work [Fintype O] (s : State n O C) : ℕ :=
  ∑ a, rankAt s.pendingWakeUpRequestCount (s.point a) + toll n O * ∑ a, changesAt (s.point a)

/-- Each coroutine that comes to its end takes the worker once more through the loop. -/
def State.rank [Fintype O] (s : State n O C) : ℕ :=
  s.work + s.closer.distance + (10 * n + 34 + toll n O * 4) * s.tasks

section Points

variable {s s' : State n O C} {w : Fin n} {k : Worker n C} {e : Effect n C}

theorem wakeRank_le (pc : WakePc n) (p q : ℕ) : pc.rank q ≤ pc.rank p + 2 := by
  cases pc with
  | takePending count | compareRequests count | addRequest count =>
      simp only [WakePc.rank]
      split_ifs <;> omega
  | checkSleepingCount immediate i | checkSleeping immediate i | setEvent immediate i =>
      cases immediate <;> exact Nat.le_add_right _ 2
  | _ => exact Nat.le_add_right _ 2

theorem rankAt_le (x : Pc n × Bool) (p q : ℕ) : rankAt q x ≤ rankAt p x + 2 := by
  obtain ⟨pc, inHand⟩ := x
  cases pc with
  | wake pc =>
      have := wakeRank_le pc p q
      simp only [rankAt, Pc.rank, Pc.rankInHand]
      omega
  | localPop choice | clearSleeping choice | uncountSleeping choice | checkNobodySleeps choice
  | clearPending choice => cases choice <;> exact Nat.le_add_right _ 2
  | _ => exact Nat.le_add_right _ 2

theorem point_apply [DecidableEq C] : (s.apply e).point = s.point := by
  funext a
  cases a with
  | inl w =>
      have h := apply_worker s e w
      exact Prod.ext h.pc (congrArg Option.isSome h.hand)
  | inr o =>
      unfold State.point
      dsimp only
      rw [apply_outside]

variable [DecidableEq O]

theorem point_setWorker :
    (s.setWorker w k).point = Function.update s.point (.inl w) (k.pc, k.hand.isSome) := by
  refine Function.eq_update_iff.mpr ⟨?_, fun a ha => ?_⟩
  · exact congrArg (fun k : Worker n C => (k.pc, k.hand.isSome)) setWorker_same
  · cases a with
    | inl u =>
        have hu : u ≠ w := fun he => ha (congrArg _ he)
        exact congrArg (fun k : Worker n C => (k.pc, k.hand.isSome)) (setWorker_other hu)
    | inr o => rfl

theorem point_setCaller {o : O} {pc : Option (WakePc n)} :
    (s.setCaller o pc).point =
      Function.update s.point (.inr o) (pc.elim .returnedInSpin .wake, true) := by
  refine Function.eq_update_iff.mpr ⟨?_, fun a ha => ?_⟩
  · exact congrArg (fun pc : Option (WakePc n) => (pc.elim Pc.returnedInSpin Pc.wake, true))
      (Function.update_self ..)
  · cases a with
    | inl u => rfl
    | inr q =>
        have hq : q ≠ o := fun he => ha (congrArg _ he)
        exact congrArg (fun pc : Option (WakePc n) => (pc.elim Pc.returnedInSpin Pc.wake, true))
          (Function.update_of_ne hq ..)

variable [Fintype O]

/-- An agent goes on. When it changes `m_pendingWakeUpRequestCount`, the others fall back,
and it has one change less before it. -/
theorem work_lt {a : Fin n ⊕ O} {x : Pc n × Bool}
    (hpoint : s'.point = Function.update s.point a x)
    (hpending : s'.pendingWakeUpRequestCount = e.pendingAfter s.pendingWakeUpRequestCount)
    (hrank : rankAt s'.pendingWakeUpRequestCount x <
      rankAt s.pendingWakeUpRequestCount (s.point a))
    (hchanges : changesAt x + e.changes ≤ changesAt (s.point a)) : s'.work < s.work := by
  have hsum := sum_update_tally s.point changesAt a x
  unfold State.work
  rw [hpoint]
  cases e with
  | pending count =>
      have hone : (Effect.pending count : Effect n C).changes = 1 := rfl
      have hback : ∑ b, rankAt s'.pendingWakeUpRequestCount (Function.update s.point a x b) ≤
          ∑ b, (rankAt s.pendingWakeUpRequestCount (s.point b) + 2) := by
        refine Finset.sum_le_sum fun b _ => ?_
        by_cases hb : b = a
        · subst hb
          rw [Function.update_self]
          omega
        · rw [Function.update_of_ne hb]
          exact rankAt_le ..
      rw [Finset.sum_add_distrib, Finset.sum_const_nat fun _ _ => rfl, Finset.card_univ] at hback
      have hmul : toll n O * (∑ b, changesAt (Function.update s.point a x b) + 1) ≤
          toll n O * ∑ b, changesAt (s.point b) := Nat.mul_le_mul_left _ (by omega)
      have htoll : toll n O = 2 * Fintype.card (Fin n ⊕ O) + 1 := rfl
      rw [Nat.mul_add, Nat.mul_one] at hmul
      omega
  | _ =>
      have hsame : s'.pendingWakeUpRequestCount = s.pendingWakeUpRequestCount := hpending
      rw [hsame] at hrank ⊢
      have hranks := sum_update_tally s.point (rankAt s.pendingWakeUpRequestCount) a x
      have hmul : toll n O * ∑ b, changesAt (Function.update s.point a x b) ≤
          toll n O * ∑ b, changesAt (s.point b) := Nat.mul_le_mul_left _ (by omega)
      omega

theorem work_le {a : Fin n ⊕ O} {x : Pc n × Bool} {m : ℕ}
    (hpoint : s'.point = Function.update s.point a x)
    (hpending : s'.pendingWakeUpRequestCount = s.pendingWakeUpRequestCount)
    (hx : rankAt s.pendingWakeUpRequestCount x ≤ m) :
    s'.work ≤ s.work + (m + toll n O * 4) := by
  have hranks := sum_update_tally s.point (rankAt s.pendingWakeUpRequestCount) a x
  have hchanges := sum_update_tally s.point changesAt a x
  have hfour : changesAt x ≤ 4 := changes_le ..
  have hmul : toll n O * ∑ b, changesAt (Function.update s.point a x b) ≤
      toll n O * (∑ b, changesAt (s.point b) + 4) := Nat.mul_le_mul_left _ (by omega)
  rw [Nat.mul_add] at hmul
  unfold State.work
  rw [hpoint, hpending]
  omega

end Points

end Runs

section Tasks

variable {s : State n O C} {w : Fin n} {k : Worker n C} {e : Effect n C}

theorem tasks_setWorker (s : State n O C) (w : Fin n) (k : Worker n C) :
    (s.setWorker w k).tasks + (s.worker w).tasks = s.tasks + k.tasks := by
  have hsum := sum_update_tally s.worker Worker.tasks w k
  unfold State.tasks
  change s.globalQueue.length + _ + _ = _
  change ∑ u, ((s.setWorker w k).worker u).tasks + _ = _ at hsum
  omega

variable [DecidableEq C]

/-- An effect that takes a coroutine takes it from a queue. -/
theorem tasks_apply_takeGlobal {c : C} {q : List C} (hq : s.globalQueue = c :: q) :
    (s.apply (.takeGlobal c)).tasks + 1 = s.tasks := by
  change s.globalQueue.tail.length + ∑ w, (s.worker w).tasks + 1 = s.globalQueue.length + _
  rw [hq, List.tail_cons, List.length_cons]
  omega

theorem tasks_apply_takeLocal {v : Fin n} {c : C} {q : List C}
    (hq : (s.worker v).localQueue = c :: q) :
    (s.apply (.takeLocal v c)).tasks + 1 = s.tasks := by
  have hset := tasks_setWorker s v { s.worker v with localQueue := (s.worker v).localQueue.tail }
  change (s.apply (.takeLocal v c)).tasks + _ = _ at hset
  unfold Worker.tasks at hset
  dsimp only at hset
  rw [hq, List.tail_cons, List.length_cons] at hset
  omega

theorem tasks_apply_of_keepsQueues (he : e.keepsQueues = true) : (s.apply e).tasks = s.tasks := by
  obtain ⟨hqueue, -, -, hglobal⟩ := apply_of_keepsQueues (s := s) he
  have hworker : ∀ u, ((s.apply e).worker u).tasks = (s.worker u).tasks := by
    intro u
    have happlied := apply_worker s e u
    have hlocal : ((s.apply e).worker u).localQueue = (s.worker u).localQueue :=
      congrFun hqueue (some u)
    unfold Worker.tasks
    rw [hlocal, happlied.hand, happlied.running]
  unfold State.tasks
  rw [hglobal, Finset.sum_congr rfl fun u _ => hworker u]

omit [DecidableEq C] in
theorem running_of_keepsQueues {k' : Worker n C} (he : e.keepsQueues = true)
    (h : e.Hands s w k k') : k'.running.length ≤ k.running.length := by
  have hrunning : k'.running = k.running ∨ k'.running = k.running.tail := by
    cases e with
    | takeGlobal c | takeLocal v c | globalEnqueue c | localEnqueue v c | resume c => cases he
    | _ => exact h.2
  rcases hrunning with hsame | htail
  · exact (congrArg _ hsame).le
  · rw [htail, List.length_tail]
    exact Nat.sub_le ..

/-- Whatever a worker does outside the bodies, there are no more coroutines than before. -/
theorem tasks_le (hm : Moves s w (s.worker w) k e) (hbody : (s.worker w).pc ≠ .body) :
    ((s.setWorker w k).apply e).tasks ≤ s.tasks := by
  have hset := tasks_setWorker s w k
  have hhands := hm.hands
  have hbefore : (s.worker w).tasks = k.localQueue.length +
      (s.worker w).hand.toList.length + (s.worker w).running.length := by
    rw [hm.localQueue]
    rfl
  have hafter : k.tasks = k.localQueue.length + k.hand.toList.length + k.running.length := rfl
  by_cases he : e.keepsQueues = true
  · have hsame := tasks_apply_of_keepsQueues (s := s.setWorker w k) he
    have hrunning := running_of_keepsQueues he hhands
    rw [hand_of_keepsQueues he hhands] at hafter
    omega
  cases e with
  | takeGlobal c =>
      obtain ⟨⟨q, hq⟩, hnone, hsome, hrunning⟩ := hhands
      have htaken := tasks_apply_takeGlobal (s := s.setWorker w k) hq
      rw [hnone, ← hrunning, Option.toList_none, List.length_nil] at hbefore
      rw [hsome, Option.toList_some, List.length_singleton] at hafter
      omega
  | takeLocal v c =>
      obtain ⟨⟨q, hq⟩, hnone, hsome, hrunning⟩ := hhands
      have htaken := tasks_apply_takeLocal (s := s.setWorker w k)
        ((congrFun (queue_setWorker hm.localQueue) (some v)).trans hq)
      rw [hnone, ← hrunning, Option.toList_none, List.length_nil] at hbefore
      rw [hsome, Option.toList_some, List.length_singleton] at hafter
      omega
  | globalEnqueue c => exact absurd hhands.2.2.1 hbody
  | localEnqueue v c => exact absurd hhands.2.2.2.1 hbody
  | resume c =>
      obtain ⟨hsome, hnone, hrunning⟩ := hhands
      rw [hsome, Option.toList_some, List.length_singleton] at hbefore
      rw [hnone, hrunning, Option.toList_none, List.length_nil, List.length_cons] at hafter
      change (s.setWorker w k).tasks ≤ _
      omega
  | _ => exact absurd rfl he

end Tasks

section Returns

variable [DecidableEq O] [DecidableEq C] {cfg : Config n O} {s s' : State n O C} {w : Fin n}
  {k : Worker n C} {e : Effect n C}

omit [DecidableEq O] [DecidableEq C] in
/-- A body comes to its end, and the worker to the loop or to the body below. -/
theorem finish_cases (hresuming : (s.worker w).Resuming)
    (hk : workerStep cfg s w .finish = some (k, e)) :
    e = .quiet ∧ k.tasks + 1 = (s.worker w).tasks ∧
      ∀ p, rankAt p (k.pc, k.hand.isSome) ≤ 10 * n + 33 := by
  obtain ⟨hbody, hk⟩ := Option.ite_none_right_eq_some.mp hk
  have hlength := List.length_pos_iff.mpr (hresuming hbody)
  cases hk
  refine ⟨rfl, ?_, fun p => ?_⟩
  · unfold Worker.tasks
    dsimp only
    rw [List.length_tail]
    omega
  · dsimp only
    split_ifs
    · exact le_rfl
    · exact Nat.zero_le _

omit [DecidableEq O] [DecidableEq C] in
theorem workerStep_resuming {choice : Choice n C}
    (hs : workerStep cfg s w choice = some (k, e)) : k.Resuming := by
  cases choice with
  | go b victim => exact (goStep_settles hs).resuming
  | schedule c =>
      obtain ⟨-, hs⟩ := Option.ite_none_right_eq_some.mp hs
      obtain ⟨-, he⟩ := Option.ite_none_right_eq_some.mp hs
      cases he
      exact nofun
  | onReady =>
      obtain ⟨-, hs⟩ := Option.ite_none_right_eq_some.mp hs
      cases hs
      exact nofun
  | yield b =>
      obtain ⟨-, hs⟩ := Option.ite_none_right_eq_some.mp hs
      cases hs
      intro hpc
      unfold Worker.tryGetWork Worker.go at hpc
      dsimp only at hpc
      split_ifs at hpc
  | finish =>
      obtain ⟨-, hs⟩ := Option.ite_none_right_eq_some.mp hs
      cases hs
      intro hpc hnil
      dsimp only at hpc hnil
      rw [hnil, List.isEmpty_nil, if_pos rfl] at hpc
      cases hpc

theorem resuming_of_reach (hs : (system cfg C).Reach s) (w : Fin n) :
    (s.worker w).Resuming := by
  refine StepSystem.Reach.invariant (I := fun s => ∀ w, (s.worker w).Resuming)
    (fun s hstart w => ?_) (fun s a s' hi ha => ?_) hs w
  · obtain rfl : s = newPool := hstart
    exact nofun
  have happly : ∀ (s₁ : State n O C) (e : Effect n C), (∀ u, (s₁.worker u).Resuming) →
      ∀ u, ((s₁.apply e).worker u).Resuming := by
    intro s₁ e h u
    have happlied := apply_worker s₁ e u
    unfold Worker.Resuming
    rw [happlied.pc, happlied.running]
    exact h u
  rcases step_cases ha with ⟨w, choice, k, e, -, hk, rfl⟩ | ⟨o, c, -, -, rfl⟩ | ⟨e, -, hsame⟩
  · refine happly _ e fun u => ?_
    by_cases hu : u = w
    · rw [hu, setWorker_same]
      exact workerStep_resuming hk
    · rw [setWorker_other hu]
      exact hi u
  · exact happly _ _ hi
  · rw [hsame.worker]
    exact happly s e hi

theorem called_step {a : Action n O C} (hcalled : s.closer ≠ .notCalled)
    (hs : step cfg s a = some s') : s'.closer ≠ .notCalled := by
  cases a with
  | worker w choice =>
      obtain ⟨⟨k, e⟩, -, rfl⟩ := Option.map_eq_some_iff.mp hs
      rw [apply_phase.2]
      exact hcalled
  | schedule o c =>
      obtain ⟨-, he⟩ := Option.ite_none_right_eq_some.mp hs
      cases he
      exact hcalled
  | caller o b =>
      obtain ⟨pc, -, rfl⟩ := Option.map_eq_some_iff.mp hs
      rw [apply_phase.2]
      exact hcalled
  | shutdown immediately => exact absurd (Option.ite_none_right_eq_some.mp hs).1 hcalled
  | closer =>
      have hs : closerStep s s.closer = some s' := hs
      cases hc : s.closer with
      | notCalled => exact absurd hc hcalled
      | returned =>
          rw [hc] at hs
          cases hs
      | setEvent i =>
          rw [hc] at hs
          cases hs
          nofun
      | checkSleeping i =>
          rw [hc] at hs
          unfold closerStep at hs
          dsimp only at hs
          split_ifs at hs
          all_goals
            cases hs
            nofun

variable [Fintype O]

theorem rank_lt_of_go {b : Bool} {victim : Fin n} (hs : (system cfg C).Reach s)
    (hdown : s.isDown) (hb : b = true ∨ (s.worker w).pc.exchanges = false)
    (hk : goStep cfg s w (s.worker w) b victim = some (k, e)) :
    ((s.setWorker w k).apply e).rank < s.rank := by
  have hbody : (s.worker w).pc ≠ .body := by
    intro hpc
    unfold goStep at hk
    rw [hpc] at hk
    cases hk
  have hfits := (inv_of_reach hs).fits w
  have hpending : ((s.setWorker w k).apply e).pendingWakeUpRequestCount =
      e.pendingAfter s.pendingWakeUpRequestCount := pending_apply e
  have hrank := goStep_rank hfits ((rousing_of_reach hs).handed w) hdown hb hk
  rw [← hpending] at hrank
  have hwork := work_lt (point_apply.trans point_setWorker) hpending hrank
    ((goStep_settles hk).changes hdown)
  have htasks := tasks_le (goStep_moves rfl hfits hk) hbody
  have hmul := Nat.mul_le_mul_left (10 * n + 34 + toll n O * 4) htasks
  unfold State.rank
  rw [apply_phase.2]
  change _ + s.closer.distance + _ < _
  omega

theorem rank_lt_of_finish (hs : (system cfg C).Reach s)
    (hk : workerStep cfg s w .finish = some (k, e)) :
    ((s.setWorker w k).apply e).rank < s.rank := by
  obtain ⟨rfl, htasks, hrank⟩ := finish_cases (resuming_of_reach hs w) hk
  have hset := tasks_setWorker s w k
  have hwork : (s.setWorker w k).work ≤ _ :=
    work_le point_setWorker rfl (hrank s.pendingWakeUpRequestCount)
  have hless : (s.setWorker w k).tasks + 1 = s.tasks := by omega
  change (s.setWorker w k).rank < _
  unfold State.rank
  rw [← hless, Nat.mul_add, Nat.mul_one]
  change _ + s.closer.distance + _ < _
  omega

theorem rank_lt_of_caller {o : O} {b : Bool} {caller : Caller} {pc : WakePc n}
    (ho : s.outside o = some pc) (hb : b = true ∨ (Pc.wake pc).exchanges = false) :
    ((s.setCaller o (wakeStep cfg s caller b pc).1).apply
      (wakeStep cfg s caller b pc).2).rank < s.rank := by
  have hpoint : s.point (.inr o) = (.wake pc, true) := by
    unfold State.point
    dsimp only
    rw [ho]
    rfl
  have hchanges := wakeStep_changes cfg s caller b pc
  have hkeeps := keepsQueues_of_wakes (wakeStep_wakes (s := s) cfg caller b pc)
  have hrank : ∀ pc', (wakeStep cfg s caller b pc).1 = some pc' → pc'.rank _ < pc.rank _ :=
    fun pc' => wakeStep_rank hb
  generalize wakeStep cfg s caller b pc = next at hchanges hkeeps hrank ⊢
  obtain ⟨pc', e⟩ := next
  have hpending := pending_apply (s := s.setCaller o pc') e
  have hwork : ((s.setCaller o pc').apply e).work < s.work := by
    refine work_lt (point_apply.trans point_setCaller) hpending ?_ ?_
    · rw [hpoint, hpending]
      cases pc' with
      | none => exact Nat.add_pos_left (Nat.add_pos_left Nat.two_pos _) _
      | some pc' => exact Nat.add_lt_add_right (Nat.add_lt_add_left (hrank pc' rfl) 2) _
    · rw [hpoint]
      cases pc' with
      | none => exact hchanges
      | some pc' => exact hchanges
  have htasks : ((s.setCaller o pc').apply e).tasks = s.tasks := tasks_apply_of_keepsQueues hkeeps
  unfold State.rank
  rw [apply_phase.2, htasks]
  exact Nat.add_lt_add_right (Nat.add_lt_add_right hwork _) _

omit [DecidableEq O] [DecidableEq C] in
theorem rank_lt_of_distance (hpoint : s'.point = s.point)
    (hpending : s'.pendingWakeUpRequestCount = s.pendingWakeUpRequestCount)
    (htasks : s'.tasks = s.tasks) (hless : s'.closer.distance < s.closer.distance) :
    s'.rank < s.rank := by
  have hwork : s'.work = s.work := by
    unfold State.work
    rw [hpoint, hpending]
  unfold State.rank
  rw [hwork, htasks]
  omega

omit [DecidableEq O] in
theorem rank_lt_of_closer (hs : closerStep s s.closer = some s') : s'.rank < s.rank := by
  cases hc : s.closer with
  | notCalled | returned =>
      rw [hc] at hs
      cases hs
  | setEvent i =>
      rw [hc] at hs
      cases hs
      have hi := i.isLt
      have hpoint : (s.apply (.setEvent i)).point = s.point := point_apply
      have htasks : (s.apply (.setEvent i)).tasks = s.tasks := tasks_apply_of_keepsQueues rfl
      refine rank_lt_of_distance hpoint rfl htasks ?_
      rw [hc]
      simp only [Closer.distance]
      omega
  | checkSleeping i =>
      rw [hc] at hs
      unfold closerStep at hs
      dsimp only at hs
      split_ifs at hs with hi
      all_goals
        cases hs
        refine rank_lt_of_distance rfl rfl rfl ?_
        rw [hc]
        simp only [Closer.distance]
        omega

theorem rank_lt_of_step {a : Action n O C} (hs : (system cfg C).Reach s)
    (hcalled : s.closer ≠ .notCalled) (hg : Closing s a) (ha : step cfg s a = some s') :
    s'.rank < s.rank := by
  cases a with
  | worker w choice =>
      obtain ⟨⟨k, e⟩, hk, rfl⟩ := Option.map_eq_some_iff.mp ha
      cases choice with
      | go b victim =>
          have hrousing := rousing_of_reach hs
          refine rank_lt_of_go hs (hrousing.down hcalled fun hc => ?_) hg hk
          rw [workerStep_left (hrousing.left hc w)] at hk
          cases hk
      | finish => exact rank_lt_of_finish hs hk
      | schedule | onReady | yield => exact hg.elim
  | caller o b =>
      obtain ⟨pc, ho, rfl⟩ := Option.map_eq_some_iff.mp ha
      refine rank_lt_of_caller ho (hg.imp_right fun hexchanges => ?_)
      rw [ho] at hexchanges
      exact hexchanges
  | closer => exact rank_lt_of_closer ha
  | schedule | shutdown => exact hg.elim

omit [Fintype O] in
/-- `shutdown` sets the events, or a worker goes on, or `shutdown` joins them all. -/
theorem exists_step (hs : (system cfg C).Reach s) (hcalled : s.closer ≠ .notCalled)
    (hreturned : s.closer ≠ .returned) :
    ∃ (a : Action n O C) (s' : State n O C), Closing s a ∧ step cfg s a = some s' := by
  cases hc : s.closer with
  | notCalled => exact absurd hc hcalled
  | returned => exact absurd hc hreturned
  | setEvent i => exact ⟨.closer, _, trivial, congrArg (closerStep s) hc⟩
  | checkSleeping i =>
      by_cases hloop : i < n ∨ ∀ w, (s.worker w).pc.returned = true
      · have hnext : ∃ s', closerStep s (.checkSleeping i) = some s' := by
          unfold closerStep
          dsimp only
          split_ifs with hi hsleep hleft
          · exact ⟨_, rfl⟩
          · exact ⟨_, rfl⟩
          · exact ⟨_, rfl⟩
          · exact absurd (fun w => returned_iff.mp (hloop.resolve_left hi w)) hleft
        obtain ⟨s', hs'⟩ := hnext
        exact ⟨.closer, s', trivial, (congrArg (closerStep s) hc).trans hs'⟩
      obtain ⟨hi, hleft⟩ := not_or.mp hloop
      obtain ⟨w, hw⟩ := not_forall.mp hleft
      by_cases hbody : (s.worker w).pc = .body
      · exact ⟨.worker w .finish, _, trivial,
          Option.map_eq_some_iff.mpr ⟨_, if_pos hbody, rfl⟩⟩
      have hdone : s.closer.loopDone := by
        rw [hc]
        exact not_lt.mp hi
      have hevent : (s.worker w).pc = .waiting → (s.worker w).wakeUpEvent = .set := by
        intro hpc
        by_contra hset
        exact not_blocked_of_loopDone hs hdone w ⟨.inr (.inr hpc), hset⟩
      have hgo : ∃ next, goStep cfg s w (s.worker w) true w = some next :=
        goStep_enabled hbody (by simpa using hw) ((rousing_of_reach hs).handed w) hevent
      obtain ⟨next, hnext⟩ := hgo
      exact ⟨.worker w (.go true w), _, .inl rfl,
        Option.map_eq_some_iff.mpr ⟨next, hnext, rfl⟩⟩

/-- Once `shutdown` was called, graceful or immediate, it returns and all workers are gone, in
whatever order the threads go on: if the bodies that run come to their ends and nobody
schedules any more. A body that schedules something meanwhile leads to a state of which the
same can be said. -/
theorem shutdown_returns (hs : (system cfg C).Reach s) (hcalled : s.closer ≠ .notCalled) :
    ((system cfg C).restrict Closing).Inevitable (fun _ => True)
      (fun s' => s'.closer = .returned ∧ ∀ w, (s'.worker w).pc.returned = true) s := by
  refine StepSystem.inevitable_at_rest
    (I := fun s => (system cfg C).Reach s ∧ s.closer ≠ .notCalled)
    (R := fun s => s.closer = .returned) State.rank (fun s ⟨hr, hc⟩ hnot => ?_)
    (fun s a s' ⟨hr, hc⟩ _ hstep => ?_) (fun s ⟨hr, _⟩ hc => ⟨hc, (rousing_of_reach hr).left hc⟩)
    ⟨hs, hcalled⟩
  · obtain ⟨a, s', hg, ha⟩ := exists_step hr hc hnot
    exact ⟨a, s', trivial, (if_pos hg).trans ha⟩
  · obtain ⟨hg, ha⟩ := Option.ite_none_right_eq_some.mp hstep
    exact ⟨⟨hr.step ha, called_step hc ha⟩, rank_lt_of_step hr hc hg ha⟩

/-- The only worker is asleep when `shutdown` begins. -/
theorem shutdown_returns_asleep : ∃ s : State 1 Unit Unit,
    (system (oneThread true) Unit).Reach s ∧ (s.worker 0).pc = .waiting ∧
      s.closer = .checkSleeping 0 ∧
      ((system (oneThread true) Unit).restrict Closing).Inevitable (fun _ => True)
        (fun s' => s'.closer = .returned ∧ ∀ w, (s'.worker w).pc.returned = true) s := by
  obtain ⟨s, hs, hpc, hc⟩ := StepSystem.Reach.exists_of_exec
    (M := system (oneThread true) Unit)
    (P := fun s => (s.worker 0).pc = .waiting ∧ s.closer = .checkSleeping 0)
    (s := newPool) (.start rfl)
    (List.replicate 140 (.worker 0 (.go true 0)) ++ [.shutdown false])
    (by decide +kernel)
  exact ⟨s, hs, hpc, hc, shutdown_returns hs (by rw [hc]; nofun)⟩

end Returns

end LevelzAsync.ThreadPool
