import LevelzAsync.ThreadPoolShutdown
import LevelzAsync.ThreadPoolWakeUps

/-!
# No worker sleeps through a shutdown

A worker dozes when it has its flag up, will not look at `m_state` before it sleeps, and
has no set event to end its sleep. Once `shutdown` has stored the state a worker does
not begin to doze, and the loop of `shutdown` finds the flag of every worker that does.
After the loop a worker that is neither in a body nor gone leaves by its own steps, as
its rank shows.
-/

namespace LevelzAsync.ThreadPool

variable {n : ℕ} {O C : Type*}

/-- The worker comes to sleep without another look at `m_state`, or is asleep. -/
def Pc.dozes : Pc n → Bool
  | .spinDequeue i | .spinSteal i _ => decide (numRemoteWorksChecksBeforeSleep ≤ i)
  | .spinPending | .beforeSleep | .waitExchange | .waitLocked | .waiting => true
  | _ => false

def Worker.Dozing (k : Worker n C) : Prop :=
  k.isSleeping = true ∧ k.pc.dozes = true ∧ k.wakeUpEvent ≠ .set

def Worker.Handed (k : Worker n C) : Prop := k.pc = .resume → k.hand.isSome = true

def State.isDown (s : State n O C) : Prop :=
  s.phase = .shuttingDown ∨ s.phase = .shuttingDownImmediately

/-- `shutdown` has yet to come to the worker `w`. -/
def Closer.ComesTo (w : Fin n) : Closer n → Prop
  | .notCalled => True
  | .checkSleeping i => i ≤ w
  | .setEvent i => i ≤ w
  | .returned => False

def Closer.loopDone : Closer n → Prop
  | .checkSleeping i => n ≤ i
  | .returned => True
  | _ => False

structure Rousing (s : State n O C) : Prop where
  handed : ∀ w, (s.worker w).Handed
  down : s.closer ≠ .notCalled → s.closer ≠ .returned → s.isDown
  left : s.closer = .returned → ∀ w, (s.worker w).pc.returned = true
  dozing : ∀ w, (s.worker w).Dozing → s.closer.ComesTo w

section Workers

variable {cfg : Config n O} {s : State n O C} {w : Fin n} {k k' : Worker n C} {e : Effect n C}

theorem blocked_dozing (hfits : k.Fits) (h : k.blocked) : k.Dozing := by
  obtain ⟨hpc, hevent⟩ := h
  unfold Worker.Fits at hfits
  rcases hpc with hpc | hpc | hpc
  all_goals
    rw [hpc] at hfits
    exact ⟨hfits.1, by rw [hpc]; rfl, hevent⟩

theorem not_dozing {P : Prop} (hpc : k.pc.dozes = false) (h : k.Dozing) : P :=
  absurd (hpc.symm.trans h.2.1) nofun

/-- What a worker keeps in its steps while the pool is shutting down. -/
structure Rests (down : Prop) (k k' : Worker n C) : Prop where
  dozing : down → k'.Dozing → k.Dozing
  handed : k'.Handed

variable {down : Prop}

/-- A step to a point before the next look at `m_state`. -/
theorem Rests.awake (hpc : k'.pc.dozes = false) (hhanded : k'.Handed) : Rests down k k' :=
  ⟨fun _ => not_dozing hpc, hhanded⟩

theorem rests_afterWake : Rests down k k.afterWake := by
  unfold Worker.afterWake
  split_ifs with hhand
  · exact .awake rfl fun _ => hhand
  · exact .awake rfl nofun
  · exact .awake rfl nofun

theorem rests_gotWork {c : C} : Rests down k (k.gotWork c) := by
  unfold Worker.gotWork
  split_ifs
  · exact .awake rfl nofun
  · exact .awake rfl fun _ => rfl

theorem rests_gotNoWork : Rests down k k.gotNoWork := by
  unfold Worker.gotNoWork
  split_ifs
  · exact .awake rfl nofun
  · exact .awake rfl nofun

theorem rests_gotNoRemote {first : Bool} : Rests down k (k.gotNoRemote first) := by
  unfold Worker.gotNoRemote
  split_ifs
  · exact .awake rfl nofun
  · exact rests_gotNoWork

theorem rests_tryGetWork {noLocalWork b : Bool} : Rests down k (k.tryGetWork noLocalWork b) := by
  unfold Worker.tryGetWork
  split_ifs
  · exact .awake rfl nofun
  · exact .awake rfl nofun

theorem rests_afterClear {woken : Bool} : Rests down k (k.afterClear woken) := by
  unfold Worker.afterClear
  split_ifs
  · exact .awake rfl nofun
  · exact rests_afterWake

/-- A quiet step along the points that doze. -/
theorem rests_stay {pc : Pc n} (hpc : pc.dozes = true → k.pc.dozes = true)
    (hresume : pc ≠ .resume) : Rests down k (k.go pc) :=
  ⟨fun _ h => ⟨h.1, hpc h.2.1, h.2.2⟩, fun h => absurd h hresume⟩

theorem rests_spinNext {i : ℕ} (hpc : numRemoteWorksChecksBeforeSleep ≤ i → k.pc.dozes = true) :
    Rests down k (k.spinNext i) := by
  unfold Worker.spinNext
  split_ifs with hi
  · exact .awake rfl nofun
  · exact rests_stay (fun _ => hpc (not_lt.mp hi)) nofun

theorem goStep_rests {b : Bool} {victim : Fin n} (hs : goStep cfg s w k b victim = some (k', e)) :
    Rests s.isDown k k' := by
  obtain ⟨pc, hand, running, isSleeping, wakeUpEvent, localQueue⟩ := k
  unfold goStep at hs
  cases pc with
  | top =>
      dsimp only at hs
      split_ifs at hs
      · cases hs
        exact .awake rfl nofun
      · cases hs
        exact rests_tryGetWork
  | globalDequeue first =>
      dsimp only at hs
      split at hs
      · cases hs
        exact rests_gotWork
      · split_ifs at hs
        · cases hs
          exact rests_gotNoRemote
        · cases hs
          exact .awake rfl nofun
  | steal first j =>
      dsimp only at hs
      split at hs
      · split at hs
        · cases hs
          exact rests_gotWork
        · cases hs
          exact .awake rfl nofun
      · cases hs
        exact rests_gotNoRemote
  | localPop remoteTried =>
      dsimp only at hs
      split at hs
      · cases hs
        exact rests_gotWork
      · split_ifs at hs
        · cases hs
          exact rests_gotNoWork
        · cases hs
          exact .awake rfl nofun
  | spinDequeue i =>
      dsimp only at hs
      split at hs
      · cases hs
        exact .awake rfl nofun
      · split_ifs at hs
        · cases hs
          exact rests_spinNext fun hi => decide_eq_true hi
        · cases hs
          exact rests_stay id nofun
  | spinSteal i j =>
      dsimp only at hs
      split at hs
      · split at hs
        · cases hs
          exact .awake rfl nofun
        · cases hs
          exact rests_stay id nofun
      · cases hs
        exact rests_spinNext fun hi => decide_eq_true hi
  | spinState i =>
      dsimp only at hs
      split_ifs at hs with hdown
      · cases hs
        exact .awake rfl nofun
      · cases hs
        -- here `m_state` was read before the shutdown
        exact ⟨fun h => absurd h hdown, nofun⟩
  | spinPending =>
      dsimp only at hs
      split_ifs at hs
      · cases hs
        exact .awake rfl nofun
      · cases hs
        exact rests_stay (fun _ => rfl) nofun
      · cases hs
        exact .awake rfl nofun
  | waitExchange =>
      dsimp only at hs
      split_ifs at hs with hevent
      · cases hs
        exact ⟨fun _ h => ⟨h.1, rfl, by rw [hevent]; nofun⟩, nofun⟩
      · cases hs
        exact .awake rfl nofun
  | waitLocked =>
      cases hs
      split_ifs
      · exact .awake rfl nofun
      · exact rests_stay (fun _ => rfl) nofun
  | waiting =>
      obtain ⟨-, he⟩ := Option.ite_none_right_eq_some.mp hs
      cases he
      exact .awake rfl nofun
  | beforeSleep =>
      cases hs
      exact rests_stay (fun _ => rfl) nofun
  | checkNobodySleeps woken =>
      dsimp only at hs
      split_ifs at hs
      · cases hs
        exact .awake rfl nofun
      · cases hs
        exact rests_afterClear
  | clearPending woken =>
      cases hs
      exact rests_afterClear
  | normalProcessing =>
      cases hs
      split_ifs
      · exact .awake rfl nofun
      · exact .awake rfl nofun
  | wake pc =>
      dsimp only at hs
      split at hs
      · cases hs
        exact .awake rfl nofun
      · cases hs
        exact rests_afterWake
  | resume =>
      obtain ⟨c, -, he⟩ := Option.map_eq_some_iff.mp hs
      cases he
      exact .awake rfl nofun
  | setSleeping | countSleeping | clearEvent | afterSleep | clearSleeping | uncountSleeping =>
      cases hs
      exact .awake rfl nofun
  | body | returnedAtTop | returnedInSpin => cases hs

theorem workerStep_rests [DecidableEq C] {choice : Choice n C}
    (hs : workerStep cfg s w choice = some (k', e)) : Rests s.isDown (s.worker w) k' := by
  cases choice with
  | go b victim => exact goStep_rests hs
  | schedule c =>
      obtain ⟨-, hs⟩ := Option.ite_none_right_eq_some.mp hs
      obtain ⟨-, he⟩ := Option.ite_none_right_eq_some.mp hs
      cases he
      exact .awake rfl nofun
  | onReady =>
      obtain ⟨-, hs⟩ := Option.ite_none_right_eq_some.mp hs
      cases hs
      exact .awake rfl nofun
  | yield b =>
      obtain ⟨-, hs⟩ := Option.ite_none_right_eq_some.mp hs
      cases hs
      exact rests_tryGetWork
  | finish =>
      obtain ⟨-, hs⟩ := Option.ite_none_right_eq_some.mp hs
      cases hs
      refine .awake ?_ fun h => ?_
      · dsimp only
        split_ifs <;> rfl
      · dsimp only at h
        split_ifs at h

theorem workerStep_left [DecidableEq C] {choice : Choice n C}
    (hleft : (s.worker w).pc.returned = true) : workerStep cfg s w choice = none := by
  cases hp : (s.worker w).pc with
  | returnedAtTop | returnedInSpin =>
      cases choice with
      | go b victim =>
          unfold workerStep goStep
          rw [hp]
      | _ => exact if_neg (by rw [hp]; nofun)
  | _ =>
      rw [hp] at hleft
      cases hleft

end Workers

section Runs

variable {s s' : State n O C} {w : Fin n} {k : Worker n C} {e : Effect n C}

theorem Rousing.congr (h : Rousing s) (hworker : s'.worker = s.worker)
    (hphase : s'.phase = s.phase) (hcloser : s'.closer = s.closer) : Rousing s' := by
  refine ⟨hworker ▸ h.handed, ?_, ?_, ?_⟩
  · unfold State.isDown
    rw [hcloser, hphase]
    exact h.down
  · rw [hcloser, hworker]
    exact h.left
  · rw [hcloser, hworker]
    exact h.dozing

theorem Applied.dozing {u : Fin n} {k k' : Worker n C} (h : Applied e u k k') (hk : k'.Dozing) :
    k.Dozing := by
  obtain ⟨hsleep, hpc, hevent⟩ := hk
  refine ⟨h.isSleeping ▸ hsleep, h.pc ▸ hpc, ?_⟩
  rcases h.event with hsame | hset
  · rwa [← hsame]
  · exact absurd hset hevent

theorem Applied.handed {u : Fin n} {k k' : Worker n C} (h : Applied e u k k') (hk : k.Handed) :
    k'.Handed := by
  unfold Worker.Handed
  rw [h.pc, h.hand]
  exact hk

theorem Rousing.setWorker (h : Rousing s) (hleft : (s.worker w).pc.returned = false)
    (hk : Rests s.isDown (s.worker w) k) : Rousing (s.setWorker w k) := by
  refine ⟨fun u => ?_, h.down, fun hc => ?_, fun u hu => ?_⟩
  · by_cases hw : u = w
    · rw [hw, setWorker_same]
      exact hk.handed
    · rw [setWorker_other hw]
      exact h.handed u
  · rw [h.left hc w] at hleft
    cases hleft
  · by_cases hw : u = w
    · rw [hw, setWorker_same] at hu
      subst hw
      change s.closer.ComesTo u
      by_cases hcalled : s.closer = .notCalled
      · rw [hcalled]
        trivial
      · by_cases hreturned : s.closer = .returned
        · rw [h.left hreturned u] at hleft
          cases hleft
        · exact h.dozing u (hk.dozing (h.down hcalled hreturned) hu)
    · rw [setWorker_other hw] at hu
      exact h.dozing u hu

theorem returned_iff {pc : Pc n} :
    pc.returned = true ↔ pc = .returnedAtTop ∨ pc = .returnedInSpin := by
  cases pc <;> simp [Pc.returned]

variable [DecidableEq C]

theorem Rousing.apply (h : Rousing s) : Rousing (s.apply e) := by
  obtain ⟨hphase, hcloser⟩ := apply_phase (s := s) (e := e)
  refine ⟨fun u => (apply_worker s e u).handed (h.handed u), ?_, fun hc u => ?_, fun u hu => ?_⟩
  · unfold State.isDown
    rw [hcloser, hphase]
    exact h.down
  · rw [hcloser] at hc
    rw [(apply_worker s e u).pc]
    exact h.left hc u
  · rw [hcloser]
    exact h.dozing u ((apply_worker s e u).dozing hu)

theorem Rousing.closerStep {pc : Closer n} (h : Rousing s) (hpc : s.closer = pc)
    (hs : closerStep s pc = some s') : Rousing s' := by
  have hdown : pc ≠ .notCalled → pc ≠ .returned → s.isDown := hpc ▸ h.down
  have hdozing : ∀ w, (s.worker w).Dozing → pc.ComesTo w := hpc ▸ h.dozing
  unfold ThreadPool.closerStep at hs
  cases pc with
  | notCalled | returned => cases hs
  | checkSleeping i =>
      dsimp only at hs
      split_ifs at hs with hi hsleep hleft
      · cases hs
        exact ⟨h.handed, fun _ _ => hdown nofun nofun, nofun, fun w hw => hdozing w hw⟩
      · cases hs
        refine ⟨h.handed, fun _ _ => hdown nofun nofun, nofun, fun w hw => ?_⟩
        have hle : i ≤ w := hdozing w hw
        have hne : i ≠ w := by
          rintro rfl
          exact hsleep hw.1
        change i + 1 ≤ w
        omega
      · cases hs
        refine ⟨h.handed, fun _ hr => absurd rfl hr, fun _ w => returned_iff.mpr (hleft w),
          fun w hw => ?_⟩
        exact absurd w.isLt (not_lt.mpr ((not_lt.mp hi).trans (hdozing w hw)))
  | setEvent i =>
      cases hs
      have happly : Rousing (s.apply (.setEvent i)) := h.apply
      have hcloser : (s.apply (.setEvent i)).closer = .setEvent i := hpc
      refine ⟨happly.handed, fun _ _ => hdown nofun nofun, nofun, fun w hw => ?_⟩
      have hle : (i : ℕ) ≤ w := by
        have := happly.dozing w hw
        rwa [hcloser] at this
      have hne : (i : ℕ) ≠ w := by
        intro he
        obtain rfl : i = w := Fin.ext he
        exact hw.2.2 (event_setEvent i)
      change (i : ℕ) + 1 ≤ w
      omega

variable [DecidableEq O] {cfg : Config n O}

theorem Rousing.step {a : Action n O C} (h : Rousing s) (hs : step cfg s a = some s') :
    Rousing s' := by
  cases a with
  | worker w choice =>
      obtain ⟨⟨k, e⟩, hk, rfl⟩ := Option.map_eq_some_iff.mp hs
      have hleft : (s.worker w).pc.returned = false := by
        by_contra hleft
        rw [workerStep_left (by simpa using hleft)] at hk
        cases hk
      exact (h.setWorker hleft (workerStep_rests hk)).apply
  | schedule o c =>
      obtain ⟨-, he⟩ := Option.ite_none_right_eq_some.mp hs
      cases he
      exact h.congr rfl rfl rfl
  | caller o b =>
      obtain ⟨pc, -, rfl⟩ := Option.map_eq_some_iff.mp hs
      have hcaller : Rousing (s.setCaller o (wakeStep cfg s
          (.foreign (cfg.currentThreadPool o)) b pc).1) := h.congr rfl rfl rfl
      exact hcaller.apply
  | shutdown immediately =>
      obtain ⟨-, he⟩ := Option.ite_none_right_eq_some.mp hs
      cases he
      refine ⟨h.handed, fun _ _ => ?_, nofun, fun w _ => Nat.zero_le w⟩
      cases immediately with
      | true => exact .inr rfl
      | false => exact .inl rfl
  | closer => exact h.closerStep rfl hs

theorem rousing_of_reach (hs : (system cfg C).Reach s) : Rousing s := by
  refine StepSystem.Reach.invariant (fun s hstart => ?_) (fun s a s' hi ha => hi.step ha) hs
  obtain rfl : s = newPool := hstart
  exact ⟨fun _ => nofun, fun hc => absurd rfl hc, nofun, fun _ _ => trivial⟩

/-- After the loop of `shutdown` nobody waits for an event that is not set. -/
theorem not_blocked_of_loopDone (hs : (system cfg C).Reach s) (hdone : s.closer.loopDone)
    (w : Fin n) : ¬ (s.worker w).blocked := by
  intro hblocked
  have hdozing := (rousing_of_reach hs).dozing w
    (blocked_dozing ((inv_of_reach hs).fits w) hblocked)
  cases hc : s.closer with
  | checkSleeping i =>
      rw [hc] at hdone hdozing
      exact absurd w.isLt (not_lt.mpr (le_trans hdone hdozing))
  | notCalled | setEvent i =>
      rw [hc] at hdone
      exact hdone
  | returned =>
      rw [hc] at hdozing
      exact hdozing

theorem loopDone_step {a : Action n O C} (hdone : s.closer.loopDone)
    (hs : step cfg s a = some s') : s'.closer.loopDone := by
  cases a with
  | worker w choice =>
      obtain ⟨⟨k, e⟩, -, rfl⟩ := Option.map_eq_some_iff.mp hs
      rw [apply_phase.2]
      exact hdone
  | schedule o c =>
      obtain ⟨-, he⟩ := Option.ite_none_right_eq_some.mp hs
      cases he
      exact hdone
  | caller o b =>
      obtain ⟨pc, -, rfl⟩ := Option.map_eq_some_iff.mp hs
      rw [apply_phase.2]
      exact hdone
  | shutdown immediately =>
      obtain ⟨hc, -⟩ := Option.ite_none_right_eq_some.mp hs
      rw [hc] at hdone
      exact hdone.elim
  | closer =>
      have hs : closerStep s s.closer = some s' := hs
      unfold closerStep at hs
      cases hc : s.closer with
      | notCalled | setEvent i =>
          rw [hc] at hdone
          exact hdone.elim
      | returned =>
          rw [hc] at hs
          cases hs
      | checkSleeping i =>
          rw [hc] at hs hdone
          dsimp only at hs
          split_ifs at hs with hi
          · exact absurd hi (not_lt.mpr hdone)
          · exact absurd hi (not_lt.mpr hdone)
          · cases hs
            trivial

theorem loopDone_exec {as : List (Action n O C)} (hdone : s.closer.loopDone)
    (hs : (system cfg C).exec s as = some s') : s'.closer.loopDone := by
  induction as generalizing s with
  | nil =>
      obtain rfl : s = s' := Option.some.inj hs
      exact hdone
  | cons a as ih =>
      rw [StepSystem.exec_cons, Option.bind_eq_some_iff] at hs
      obtain ⟨s₁, h₁, h₂⟩ := hs
      exact ih (loopDone_step hdone h₁) h₂

end Runs

end LevelzAsync.ThreadPool
