import LevelzAsync.Dispatcher
import LevelzAsync.ThreadPoolInvariant

/-!
# A pool serves its queues in order

With its queues and the hands of its workers, a pool refines a dispatcher: whatever the
workers do about sleep, wake-ups and shutdown is not seen there. So each queue is served
in the order in which coroutines were scheduled onto it, whoever takes them, by its
owner, by a theft or in `ThreadPool::yield`. A pool without local work has but one queue.
-/

namespace LevelzAsync.ThreadPool

variable {n : ℕ} {O C : Type*}

/-- A pool, with what was scheduled onto each queue and taken from it, and what each
worker has taken and resumed. -/
structure Logged (n : ℕ) (O C : Type*) where
  pool : State n O C
  entered : Option (Fin n) → List C
  taken : Option (Fin n) → List C
  takenBy : Fin n → List C
  resumed : Fin n → List C

def Logged.dispatcher (s : Logged n O C) : Dispatcher (Option (Fin n)) (Fin n) C :=
  ⟨s.pool.queue, s.pool.hand, s.entered, s.taken, s.takenBy, s.resumed⟩

def Logged.take (s : Logged n O C) (w : Fin n) (key : Option (Fin n)) (c : C) : Logged n O C :=
  { s with
    taken := Dispatcher.push s.taken key c
    takenBy := Dispatcher.push s.takenBy w c }

/-- What the step of the worker `w` with this effect adds. -/
def Logged.log (s : Logged n O C) (w : Fin n) : Effect n C → Logged n O C
  | .globalEnqueue c => { s with entered := Dispatcher.push s.entered none c }
  | .localEnqueue v c => { s with entered := Dispatcher.push s.entered (some v) c }
  | .takeGlobal c => s.take w none c
  | .takeLocal v c => s.take w (some v) c
  | .resume c => { s with resumed := Dispatcher.push s.resumed w c }
  | _ => s

section Machine

variable [DecidableEq O] [DecidableEq C]

def Logged.record (cfg : Config n O) (s : Logged n O C) : Action n O C → Logged n O C
  | .worker w choice =>
      match workerStep cfg s.pool w choice with
      | some (_, e) => s.log w e
      | none => s
  | .schedule _ c => { s with entered := Dispatcher.push s.entered none c }
  | _ => s

def Logged.newPool : Logged n O C :=
  ⟨ThreadPool.newPool, fun _ => [], fun _ => [], fun _ => [], fun _ => []⟩

def loggedSystem (cfg : Config n O) (C : Type*) [DecidableEq C] :
    StepSystem (Logged n O C) (Action n O C) where
  start s := s = .newPool
  step s a := (step cfg s.pool a).map fun pool => { s.record cfg a with pool := pool }

theorem reach_of_logged {cfg : Config n O} {s : Logged n O C}
    (hs : (loggedSystem cfg C).Reach s) : (system cfg C).Reach s.pool := by
  have hrefines : (loggedSystem cfg C).Refines (system cfg C) Logged.pool := by
    refine ⟨fun s hstart => ?_, fun s a s' _ ha => ?_⟩
    · obtain rfl : s = .newPool := hstart
      rfl
    · obtain ⟨pool, hpool, rfl⟩ := Option.map_eq_some_iff.mp ha
      exact .inr ⟨a, hpool⟩
  exact hrefines.reach hs

end Machine

section Effects

variable {s : State n O C} {w : Fin n} {k : Worker n C} {e : Effect n C}

theorem hand_setWorker_update : (s.setWorker w k).hand = Function.update s.hand w k.hand := by
  funext u
  rw [hand_setWorker, Function.update_apply]

theorem hand_setWorker_same (h : k.hand = (s.worker w).hand) :
    (s.setWorker w k).hand = s.hand := by
  rw [hand_setWorker_update, h]
  exact Function.update_eq_self ..

variable [DecidableEq C]

theorem queue_globalEnqueue (c : C) :
    (s.apply (.globalEnqueue c)).queue = Dispatcher.push s.queue none c :=
  queue_setGlobalQueue _

theorem queue_localEnqueue (v : Fin n) (c : C) :
    (s.apply (.localEnqueue v c)).queue = Dispatcher.push s.queue (some v) c :=
  queue_setLocalQueue (s := s) v ((s.worker v).localQueue ++ [c])

theorem queue_takeGlobal {q : List C} {c : C} (h : s.globalQueue = c :: q) :
    (s.apply (.takeGlobal c)).queue = Function.update s.queue none q :=
  (queue_setGlobalQueue _).trans (by rw [h]; rfl)

theorem queue_takeLocal {v : Fin n} {q : List C} {c : C} (h : (s.worker v).localQueue = c :: q) :
    (s.apply (.takeLocal v c)).queue = Function.update s.queue (some v) q :=
  (queue_setLocalQueue v _).trans (by rw [h]; rfl)

end Effects

section Runs

variable [DecidableEq O] [DecidableEq C] {cfg : Config n O}

omit [DecidableEq O] in
/-- A step of a worker is a step of the dispatcher, or is not seen there. -/
theorem dispatcher_log {s : Logged n O C} {w : Fin n} {k : Worker n C} {e : Effect n C}
    (hm : Moves s.pool w (s.pool.worker w) k e) :
    { s.log w e with pool := (s.pool.setWorker w k).apply e }.dispatcher = s.dispatcher ∨
      ∃ a, s.dispatcher.step a =
        some { s.log w e with pool := (s.pool.setWorker w k).apply e }.dispatcher := by
  have hqueue : (s.pool.setWorker w k).queue = s.pool.queue := queue_setWorker hm.localQueue
  have hhands := hm.hands
  unfold Logged.dispatcher
  rw [apply_hand]
  by_cases hkeeps : e.keepsQueues = true
  · left
    rw [(apply_of_keepsQueues hkeeps).1, hqueue,
      hand_setWorker_same (hand_of_keepsQueues hkeeps hhands)]
    cases e with
    | takeGlobal c | takeLocal v c | globalEnqueue c | localEnqueue v c | resume c => cases hkeeps
    | _ => rfl
  right
  cases e with
  | globalEnqueue c =>
      refine ⟨.enter none c, ?_⟩
      rw [queue_globalEnqueue, hqueue, hand_setWorker_same hhands.2.1]
      rfl
  | localEnqueue v c =>
      refine ⟨.enter (some v) c, ?_⟩
      rw [queue_localEnqueue, hqueue, hand_setWorker_same hhands.2.2.1]
      rfl
  | takeGlobal c =>
      obtain ⟨⟨q, hq⟩, hnone, hsome, -⟩ := hhands
      have hqueue' : s.pool.queue none = c :: q := hq
      have hhand : s.pool.hand w = none := hnone
      refine ⟨.take none w, ?_⟩
      rw [queue_takeGlobal (s := s.pool.setWorker w k) hq, hqueue, hand_setWorker_update, hsome]
      unfold Dispatcher.step
      dsimp only
      rw [hqueue', hhand]
      rfl
  | takeLocal v c =>
      obtain ⟨⟨q, hq⟩, hnone, hsome, -⟩ := hhands
      have hqueue' : s.pool.queue (some v) = c :: q := hq
      have hhand : s.pool.hand w = none := hnone
      refine ⟨.take (some v) w, ?_⟩
      rw [queue_takeLocal (s := s.pool.setWorker w k) ((congrFun hqueue (some v)).trans hqueue'),
        hqueue, hand_setWorker_update, hsome]
      unfold Dispatcher.step
      dsimp only
      rw [hqueue', hhand]
      rfl
  | resume c =>
      obtain ⟨hsome, hnone, -⟩ := hhands
      have hhand : s.pool.hand w = some c := hsome
      have hsame : ((s.pool.setWorker w k).apply (.resume c)).queue = s.pool.queue := hqueue
      refine ⟨.leave w, ?_⟩
      rw [hsame, hand_setWorker_update, hnone]
      unfold Dispatcher.step
      dsimp only
      rw [hhand]
      rfl
  | _ => exact absurd rfl hkeeps

omit [DecidableEq O] in
/-- What the callers from outside and `shutdown` do is not seen in the dispatcher. -/
theorem dispatcher_quiet {s : Logged n O C} {pool : State n O C} {e : Effect n C}
    (he : e.wakes = true) (hsame : SameWork (s.pool.apply e) pool) :
    { s with pool := pool }.dispatcher = s.dispatcher := by
  unfold Logged.dispatcher
  rw [hsame.queue, hsame.hand, (apply_of_keepsQueues (keepsQueues_of_wakes he)).1, apply_hand]

/-- The pool is a dispatcher of its queues to its workers. -/
theorem pool_refines_dispatcher :
    (loggedSystem cfg C).Refines (Dispatcher.system (Option (Fin n)) (Fin n) C)
      Logged.dispatcher where
  start s hstart := by
    obtain rfl : s = .newPool := hstart
    have hqueue : (ThreadPool.newPool : State n O C).queue = fun _ => [] := by
      funext key
      cases key with
      | none => rfl
      | some w => rfl
    change Logged.dispatcher _ = Dispatcher.empty
    unfold Logged.dispatcher Logged.newPool Dispatcher.empty
    dsimp only
    rw [hqueue]
    rfl
  step s a s' hs ha := by
    obtain ⟨pool, hpool, rfl⟩ := Option.map_eq_some_iff.mp ha
    have hother := step_cases hpool
    cases a with
    | worker w choice =>
        obtain ⟨⟨k, e⟩, hk, rfl⟩ := Option.map_eq_some_iff.mp hpool
        have hm := workerStep_moves ((inv_of_reach (reach_of_logged hs)).fits w) hk
        unfold Logged.record
        dsimp only
        rw [hk]
        exact dispatcher_log hm
    | schedule o c =>
        obtain ⟨-, he⟩ := Option.ite_none_right_eq_some.mp hpool
        cases he
        refine .inr ⟨.enter none c, ?_⟩
        unfold Logged.dispatcher Logged.record
        dsimp only
        rw [queue_globalEnqueue, apply_hand]
        rfl
    | caller o b =>
        obtain ⟨w, choice, k, e, ha, -⟩ | ⟨o, c, ha, -⟩ | ⟨e, he, hsame⟩ := hother
        · cases ha
        · cases ha
        · exact .inl (dispatcher_quiet he hsame)
    | shutdown immediately =>
        obtain ⟨w, choice, k, e, ha, -⟩ | ⟨o, c, ha, -⟩ | ⟨e, he, hsame⟩ := hother
        · cases ha
        · cases ha
        · exact .inl (dispatcher_quiet he hsame)
    | closer =>
        obtain ⟨w, choice, k, e, ha, -⟩ | ⟨o, c, ha, -⟩ | ⟨e, he, hsame⟩ := hother
        · cases ha
        · cases ha
        · exact .inl (dispatcher_quiet he hsame)

omit [DecidableEq O] in
/-- Without local work a worker schedules onto the global queue. -/
theorem workerStep_noLocalWork {s : State n O C} {w v : Fin n} {k : Worker n C} {c : C}
    {choice : Choice n C} (hfits : (s.worker w).Fits)
    (hs : workerStep cfg s w choice = some (k, .localEnqueue v c)) :
    cfg.noLocalWork = false := by
  obtain ⟨c', rfl⟩ := workerStep_enqueues hfits hs (.inr ⟨v, rfl⟩)
  obtain ⟨-, hs⟩ := Option.ite_none_right_eq_some.mp hs
  obtain ⟨-, he⟩ := Option.ite_none_right_eq_some.mp hs
  split_ifs at he with hlocal
  · cases he
  · exact Bool.eq_false_iff.mpr hlocal

omit [DecidableEq O] [DecidableEq C] in
theorem push_global (entered : Option (Fin n) → List C) (c : C) (w : Fin n) :
    Dispatcher.push entered none c (some w) = entered (some w) :=
  Dispatcher.push_of_ne (Option.some_ne_none w)

theorem entered_of_noLocalWork {s : Logged n O C} (hs : (loggedSystem cfg C).Reach s)
    (hlocal : cfg.noLocalWork = true) (w : Fin n) : s.entered (some w) = [] := by
  induction hs with
  | start hstart =>
      obtain rfl : _ = Logged.newPool := hstart
      rfl
  | @step s s' a hs _ ha ih =>
      obtain ⟨pool, hpool, rfl⟩ := Option.map_eq_some_iff.mp ha
      cases a with
      | worker u choice =>
          obtain ⟨⟨k, e⟩, hk, rfl⟩ := Option.map_eq_some_iff.mp hpool
          unfold Logged.record
          dsimp only
          rw [hk]
          cases e with
          | localEnqueue v c =>
              have hfits := (inv_of_reach (reach_of_logged hs)).fits u
              rw [workerStep_noLocalWork hfits hk] at hlocal
              cases hlocal
          | globalEnqueue c => exact (push_global s.entered c w).trans ih
          | _ => exact ih
      | schedule o c => exact (push_global s.entered c w).trans ih
      | _ => exact ih

/-- Every queue is served in the order in which coroutines were scheduled onto it, by
whichever workers, and a worker resumes what it takes, one by one. Without local work all
coroutines go through the global queue. -/
theorem pool_serves_in_order {s : Logged n O C} (hs : (loggedSystem cfg C).Reach s) :
    (∀ key, s.entered key = s.taken key ++ s.pool.queue key) ∧
      (∀ w, s.takenBy w = s.resumed w ++ (s.pool.hand w).toList) ∧
      (cfg.noLocalWork = true → ∀ w, s.entered (some w) = [] ∧ s.pool.queue (some w) = []) := by
  have hserved := Dispatcher.served_of_reach (pool_refines_dispatcher.reach hs)
  refine ⟨hserved.queues, hserved.hands, fun hlocal w => ?_⟩
  have hentered := entered_of_noLocalWork hs hlocal w
  refine ⟨hentered, ?_⟩
  have hqueues : s.entered (some w) = s.taken (some w) ++ s.pool.queue (some w) :=
    hserved.queues (some w)
  rw [hentered] at hqueues
  exact (List.append_eq_nil_iff.mp hqueues.symm).2

end Runs

/-- Of two coroutines that were scheduled from outside, the worker has taken the first. -/
theorem pool_serves_in_order_first : ∃ s : Logged 1 Unit Bool,
    (loggedSystem (oneThread true) Bool).Reach s ∧ s.entered none = [false, true] ∧
      s.resumed 0 = [false] ∧ s.taken none = [false] ∧ s.pool.queue none = [true] := by
  obtain ⟨s, hs, hentered, hresumed, htaken⟩ := StepSystem.Reach.exists_of_exec
    (M := loggedSystem (oneThread true) Bool)
    (P := fun s => s.entered none = [false, true] ∧ s.resumed 0 = [false] ∧
      s.taken none = [false])
    (s := .newPool) (.start rfl)
    ([.schedule () false, .caller () true, .caller () true, .schedule () true] ++
      List.replicate 4 (.worker 0 (.go true 0)))
    (by decide)
  have hqueue := (pool_serves_in_order hs).1 none
  rw [hentered, htaken] at hqueue
  exact ⟨s, hs, hentered, hresumed, htaken, (List.cons.inj hqueue).2.symm⟩

end LevelzAsync.ThreadPool
