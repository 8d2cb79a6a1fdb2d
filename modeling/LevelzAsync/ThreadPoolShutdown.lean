import LevelzAsync.ThreadPoolInvariant

/-!
# What a graceful shutdown leaves in the queues

A worker leaves the loop when it reads the new `m_state` after an empty look at the
global queue. Between the look and the read a coroutine may still come in, before
`shutdown` stores the state. From the store on only the workers themselves schedule, so
somebody who scheduled looks again before it leaves. Hence the global queue ends empty
if at the store it is empty or some worker is not between its look and its read. The
local queues end empty in any case.
-/

namespace LevelzAsync.ThreadPool

variable {n : ℕ} {O C : Type*}

/-- The worker found the global queue empty and looks at `m_state` next, or has left. -/
def Worker.committed (k : Worker n C) : Bool := k.pc.commits

/-- `shutdown()` and not `shutdownImmediately()`, and after that no call from outside. -/
def OnlyWorkers (s : State n O C) : Action n O C → Prop
  | .shutdown immediately => immediately = false
  | .schedule _ _ => s.closer = .notCalled
  | _ => True

instance (s : State n O C) (a : Action n O C) : Decidable (OnlyWorkers s a) :=
  match a with
  | .worker _ _ => inferInstanceAs (Decidable True)
  | .schedule _ _ => inferInstanceAs (Decidable (s.closer = .notCalled))
  | .caller _ _ => inferInstanceAs (Decidable True)
  | .shutdown immediately => inferInstanceAs (Decidable (immediately = false))
  | .closer => inferInstanceAs (Decidable True)

/-- Also, `shutdown()` comes at a moment when some worker attends to the global queue. -/
def Graceful (s : State n O C) : Action n O C → Prop
  | .shutdown immediately => immediately = false ∧ s.Attended Worker.committed
  | .schedule _ _ => s.closer = .notCalled
  | _ => True

instance [DecidableEq C] (s : State n O C) (a : Action n O C) : Decidable (Graceful s a) :=
  match a with
  | .worker _ _ => inferInstanceAs (Decidable True)
  | .schedule _ _ => inferInstanceAs (Decidable (s.closer = .notCalled))
  | .caller _ _ => inferInstanceAs (Decidable True)
  | .shutdown immediately =>
      inferInstanceAs (Decidable (immediately = false ∧
        (s.globalQueue = [] ∨ ∃ w, (s.worker w).committed = false)))
  | .closer => inferInstanceAs (Decidable True)

def Pc.returned : Pc n → Bool
  | .returnedAtTop | .returnedInSpin => true
  | _ => false

structure Draining (s : State n O C) : Prop where
  phase : s.phase ≠ .shuttingDownImmediately
  notAtTop : ∀ w, (s.worker w).pc.leftAtTop = false
  attended : s.closer ≠ .notCalled → s.Attended Worker.committed

section Steps

variable {s s' : State n O C} {w : Fin n} {k : Worker n C} {e : Effect n C}

theorem Draining.congr (h : Draining s) (hphase : s'.phase ≠ .shuttingDownImmediately)
    (hworker : s'.worker = s.worker) (hglobal : s'.globalQueue = s.globalQueue)
    (hcloser : s'.closer ≠ .notCalled → s.Attended Worker.committed) : Draining s' := by
  refine ⟨hphase, fun w => ?_, fun hc => (hcloser hc).congr hworker hglobal⟩
  rw [hworker]
  exact h.notAtTop w

theorem Applied.committed {u : Fin n} {k k' : Worker n C} (h : Applied e u k k') :
    k'.committed = k.committed := congrArg Pc.commits h.pc

variable [DecidableEq C]

theorem apply_phase : (s.apply e).phase = s.phase ∧ (s.apply e).closer = s.closer := by
  cases e with
  | mayBeSleeping up | sleeping up =>
      cases up with
      | true => exact ⟨rfl, rfl⟩
      | false => exact ⟨rfl, rfl⟩
  | _ => exact ⟨rfl, rfl⟩

theorem Draining.applyWakes (h : Draining s) (he : e.wakes = true) : Draining (s.apply e) := by
  obtain ⟨hphase, hcloser⟩ := apply_phase (s := s) (e := e)
  refine ⟨hphase ▸ h.phase, fun w => ?_, fun hc => ?_⟩
  · rw [(apply_worker s e w).pc]
    exact h.notAtTop w
  · rw [hcloser] at hc
    exact (h.attended hc).applyWakes (fun _ _ _ _ => Applied.committed) he

/-- A worker that stops attending to the queue found it empty. -/
theorem Draining.worker (h : Draining s) (hm : Moves s w (s.worker w) k e) :
    Draining ((s.setWorker w k).apply e) := by
  obtain ⟨hphase, hcloser⟩ := apply_phase (s := s.setWorker w k) (e := e)
  have hpc : ∀ u, (((s.setWorker w k).apply e).worker u).pc = ((s.setWorker w k).worker u).pc :=
    fun u => (apply_worker (s.setWorker w k) e u).pc
  refine ⟨hphase ▸ h.phase, fun u => ?_, fun hc => ?_⟩
  · rw [hpc]
    by_cases hu : u = w
    · rw [hu, setWorker_same]
      by_contra hleft
      exact h.phase (hm.leftAtTop (by simpa using hleft))
    · rw [setWorker_other hu]
      exact h.notAtTop u
  · rw [hcloser] at hc
    exact (h.attended hc).worker (fun _ _ _ _ => Applied.committed) hm.commits

theorem Draining.closerStep {pc : Closer n} (h : Draining s) (hpc : s.closer = pc)
    (hs : closerStep s pc = some s') : Draining s' := by
  unfold ThreadPool.closerStep at hs
  cases pc with
  | notCalled | returned => cases hs
  | checkSleeping i =>
      have hattended : s.Attended Worker.committed := h.attended (by rw [hpc]; nofun)
      dsimp only at hs
      split_ifs at hs
      · cases hs
        exact h.congr h.phase rfl rfl fun _ => hattended
      · cases hs
        exact h.congr h.phase rfl rfl fun _ => hattended
      · cases hs
        exact h.congr nofun rfl rfl fun _ => hattended
  | setEvent i =>
      cases hs
      have happly : Draining (s.apply (.setEvent i)) := h.applyWakes rfl
      refine happly.congr happly.phase rfl rfl fun _ => happly.attended ?_
      rw [apply_phase.2, hpc]
      nofun

variable [DecidableEq O] {cfg : Config n O}

theorem Draining.step {a : Action n O C} (hi : Inv s) (h : Draining s) (hg : Graceful s a)
    (hs : step cfg s a = some s') : Draining s' := by
  cases a with
  | worker w choice =>
      obtain ⟨⟨k, e⟩, hk, rfl⟩ := Option.map_eq_some_iff.mp hs
      exact h.worker (workerStep_moves (hi.fits w) hk)
  | schedule o c =>
      obtain ⟨-, he⟩ := Option.ite_none_right_eq_some.mp hs
      cases he
      exact ⟨h.phase, h.notAtTop, fun hc => absurd hg hc⟩
  | caller o b =>
      obtain ⟨pc, -, rfl⟩ := Option.map_eq_some_iff.mp hs
      have hcaller : Draining (s.setCaller o (wakeStep cfg s (.foreign (cfg.currentThreadPool o)) b
          pc).1) := h.congr h.phase rfl rfl h.attended
      exact hcaller.applyWakes (wakeStep_wakes ..)
  | shutdown immediately =>
      obtain ⟨hgraceful, hattended⟩ := hg
      obtain ⟨-, he⟩ := Option.ite_none_right_eq_some.mp hs
      cases he
      rw [hgraceful]
      exact h.congr nofun rfl rfl fun _ => hattended
  | closer => exact h.closerStep rfl hs

theorem draining_of_reach (hs : (system cfg C).ReachWhile Graceful s) : Draining s := by
  refine (StepSystem.ReachWhile.invariant (I := fun s => Inv s ∧ Draining s)
    (fun s hstart => ?_) (fun s a s' hi hg ha => ?_) hs).2
  · obtain rfl : s = newPool := hstart
    exact ⟨inv_newPool, nofun, fun _ => rfl, fun hc => absurd rfl hc⟩
  · exact ⟨hi.1.step ha, hi.2.step hi.1 hg ha⟩

/-- When all workers have left after a graceful shutdown, no coroutine is queued, and
each was resumed as often as it was scheduled. -/
theorem shutdown_drains (hs : (system cfg C).ReachWhile Graceful s)
    (hclosed : s.closer ≠ .notCalled) (hleft : ∀ w, (s.worker w).pc.returned = true) :
    s.globalQueue = [] ∧ (∀ w, (s.worker w).localQueue = []) ∧
      ∀ c, s.resumed c = s.scheduled c := by
  have h := inv_of_reach hs.reach
  have hd := draining_of_reach hs
  have hpc : ∀ w, (s.worker w).pc = .returnedInSpin := by
    intro w
    have hw := hleft w
    have htop := hd.notAtTop w
    cases hp : (s.worker w).pc with
    | returnedInSpin => rfl
    | returnedAtTop =>
        rw [hp] at htop
        cases htop
    | _ =>
        rw [hp] at hw
        cases hw
  have hfree : ∀ w, (s.worker w).Free := by
    intro w
    have hfits := h.fits w
    unfold Worker.Fits at hfits
    rw [hpc w] at hfits
    exact hfits
  have hglobal : s.globalQueue = [] := by
    rcases hd.attended hclosed with hempty | ⟨w, hw⟩
    · exact hempty
    · unfold Worker.committed at hw
      rw [hpc w] at hw
      cases hw
  refine ⟨hglobal, fun w => (hfree w).2.2, fun c => ?_⟩
  refine (h.ledger.outside c (not_inCustody_of_empty (fun key => ?_) fun w => (hfree w).1)).symm
  cases key with
  | none => exact hglobal
  | some w => exact (hfree w).2.2

end Steps

/-- The step of the only worker, wherever it is. -/
def goOn : Action 1 Unit Unit := .worker 0 (.go true 0)

/-- A coroutine is queued when `shutdown` begins; the worker resumes it and leaves. -/
theorem shutdown_drains_queued : ∃ s : State 1 Unit Unit,
    (system (oneThread true) Unit).Reach s ∧ s.scheduled () = 1 ∧ s.globalQueue = [] ∧
      s.resumed () = 1 := by
  obtain ⟨s, hs, hscheduled, hclosed, hleft⟩ := StepSystem.Reach.exists_of_exec
    (M := (system (oneThread true) Unit).restrict Graceful)
    (P := fun s => s.scheduled () = 1 ∧ s.closer ≠ .notCalled ∧
      ∀ w, (s.worker w).pc.returned = true)
    (s := newPool) (.start rfl)
    (.schedule () () :: .shutdown false :: List.replicate 4 goOn ++ .worker 0 .finish ::
      List.replicate 5 goOn)
    (by decide)
  obtain ⟨hglobal, -, hresumed⟩ := shutdown_drains hs.reachWhile hclosed hleft
  exact ⟨s, hs.reachWhile.reach, hscheduled, hglobal, (hresumed ()).trans hscheduled⟩

/-- The worker has looked at the global queue when a coroutine comes in, and reads
`m_state` when `shutdown` has stored it. -/
theorem shutdown_leaves_queued : ∃ s : State 1 Unit Unit,
    (system (oneThread true) Unit).ReachWhile OnlyWorkers s ∧ s.closer ≠ .notCalled ∧
      (∀ w, (s.worker w).pc.returned = true) ∧ s.globalQueue = [()] ∧ s.resumed () = 0 := by
  obtain ⟨s, hs, hfinal⟩ := StepSystem.Reach.exists_of_exec
    (M := (system (oneThread true) Unit).restrict OnlyWorkers)
    (P := fun s => s.closer ≠ .notCalled ∧ (∀ w, (s.worker w).pc.returned = true) ∧
      s.globalQueue = [()] ∧ s.resumed () = 0)
    (s := newPool) (.start rfl)
    (List.replicate 4 goOn ++ [.schedule () (), .caller () true, .caller () true, .shutdown false,
      goOn])
    (by decide)
  exact ⟨s, hs.reachWhile, hfinal⟩

end LevelzAsync.ThreadPool
