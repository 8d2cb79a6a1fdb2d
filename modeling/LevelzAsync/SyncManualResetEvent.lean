import LevelzAsync.Monitor
import LevelzAsync.StepSystem

/-!
# The manual-reset event of blocking threads

The calls of `SyncManualResetEvent` in steps: taking the mutex, each access to
`m_isSet`, the notification, and the wait on the condition variable, which
releases the mutex and blocks in one step and evaluates its predicate again each
time the thread was woken. Whom `notify_one` wakes is part of the label.
-/

namespace LevelzAsync.SyncManualResetEvent

/-- The next step of a thread inside a call. -/
inductive Call
  | idle
  | setLock
  | setTest
  | setStore
  | setNotify
  | setUnlock
  | resetLock
  | resetStore
  | resetUnlock
  | waitLock
  | waitTest
  | waitPredicate
  | waitBlock
  | waitReacquire
  | waitUnlock
  deriving DecidableEq

structure State (Thread : Type*) where
  /-- `m_isSet`. -/
  isSet : Bool
  /-- `m_mutex` and `m_cv`. -/
  monitor : Monitor Thread
  call : Thread → Call

inductive Action (Thread : Type*)
  | set (t : Thread)
  | reset (t : Thread)
  | wait (t : Thread)
  | call (t notified : Thread)
  /-- The condition variable wakes a thread without a reason. -/
  | spurious (t : Thread)

variable {Thread : Type*} [DecidableEq Thread]

def State.go (s : State Thread) (t : Thread) (p : Call) : State Thread :=
  { s with call := Function.update s.call t p }

def State.goLocked (s : State Thread) (t : Thread) (p : Call) (m : Monitor Thread) :
    State Thread :=
  { s.go t p with monitor := m }

def callStep (s : State Thread) (t notified : Thread) : Call → Option (State Thread)
  | .idle => none
  | .setLock => (s.monitor.lock t).map (s.goLocked t .setTest)
  | .setTest => some (s.go t (if s.isSet = true then .setUnlock else .setStore))
  | .setStore => some { s.go t .setNotify with isSet := true }
  | .setNotify => (s.monitor.notifyOne notified).map (s.goLocked t .setUnlock)
  | .setUnlock | .resetUnlock | .waitUnlock => some (s.goLocked t .idle s.monitor.unlock)
  | .resetLock => (s.monitor.lock t).map (s.goLocked t .resetStore)
  | .resetStore => some { s.go t .resetUnlock with isSet := false }
  | .waitLock => (s.monitor.lock t).map (s.goLocked t .waitTest)
  | .waitTest => some (s.go t (if s.isSet = true then .waitUnlock else .waitPredicate))
  | .waitPredicate => some (s.go t (if s.isSet = true then .waitUnlock else .waitBlock))
  | .waitBlock => some (s.goLocked t .waitReacquire (s.monitor.wait t))
  | .waitReacquire => (s.monitor.reacquire t).map (s.goLocked t .waitPredicate)

def step (s : State Thread) : Action Thread → Option (State Thread)
  | .set t => if s.call t = .idle then some (s.go t .setLock) else none
  | .reset t => if s.call t = .idle then some (s.go t .resetLock) else none
  | .wait t => if s.call t = .idle then some (s.go t .waitLock) else none
  | .call t notified => callStep s t notified (s.call t)
  | .spurious t => some { s with monitor := s.monitor.wake t }

def initial (initiallySet : Bool) : State Thread where
  isSet := initiallySet
  monitor := .free
  call _ := .idle

def system (Thread : Type*) [DecidableEq Thread] :
    StepSystem (State Thread) (Action Thread) where
  start s := ∃ initiallySet, s = initial initiallySet
  step := step

/-- The event is set, no `set` or `reset` is in flight, and every thread that is
left waits on the condition variable with no wake-up on its way. -/
structure Stuck (s : State Thread) : Prop where
  isSet : s.isSet = true
  blocked : ∀ t, s.call t ≠ .idle → s.call t = .waitReacquire ∧ t ∈ s.monitor.waiting
  waits : ∃ t, s.call t ≠ .idle

/-- A `set` that finds the event not set finds at most one thread blocked. -/
def OneWaiter (s : State Thread) : Action Thread → Prop
  | .call t _ => s.call t = .setStore → s.monitor.waiting.card ≤ 1
  | _ => True

namespace Call

def inside : Call → Bool
  | setTest | setStore | setNotify | setUnlock | resetStore | resetUnlock | waitTest
  | waitPredicate | waitBlock | waitUnlock => true
  | _ => false

end Call

/-- Who is blocked while the event is set is about to be woken. -/
structure Inv (s : State Thread) : Prop where
  guards : s.monitor.Guards Call.inside s.call
  unset : ∀ t, s.call t = .waitBlock → s.isSet = false
  woken : s.isSet = true → s.monitor.waiting.Nonempty →
    (∃ t, s.call t = .setNotify) ∧ s.monitor.waiting.card ≤ 1

variable {s s' : State Thread} {t : Thread} {p : Call}

theorem waitBlock_of_update {call : Thread → Call} {u : Thread}
    (h : Function.update call t p u = .waitBlock) (hp : p ≠ .waitBlock) :
    u ≠ t ∧ call u = .waitBlock := by
  by_cases hu : u = t
  · subst hu
    rw [Function.update_self] at h
    exact absurd h hp
  · rw [Function.update_of_ne hu] at h
    exact ⟨hu, h⟩

theorem Inv.go (h : Inv s) (hcall : s'.call = Function.update s.call t p)
    (hguards : s'.monitor.Guards Call.inside s'.call)
    (hwaiting : s'.monitor.waiting ⊆ s.monitor.waiting)
    (hset : s'.isSet = true → s.isSet = true ∧ s.call t ≠ .setNotify)
    (hunset : p = .waitBlock → s'.isSet = false) : Inv s' where
  guards := hguards
  unset u hu := by
    rcases agent_cases (Q := fun p => p = .waitBlock) hcall hu with ⟨_, hp⟩ | ⟨_, hs⟩
    · exact hunset hp
    · by_contra hne
      have := (hset (by simpa using hne)).1
      rw [h.unset u hs] at this
      cases this
  woken hs hne := by
    obtain ⟨hs, hnot⟩ := hset hs
    obtain ⟨⟨u, hu⟩, hcard⟩ := h.woken hs (hne.mono hwaiting)
    refine ⟨⟨u, ?_⟩, (Finset.card_le_card hwaiting).trans hcard⟩
    rw [hcall, Function.update_of_ne, hu]
    rintro rfl
    exact hnot hu

theorem Inv.plain (h : Inv s) (hp : p.inside = (s.call t).inside) (hn : s.call t ≠ .setNotify)
    (hunset : p = .waitBlock → s.isSet = false) : Inv (s.go t p) :=
  h.go rfl (h.guards.stay rfl hp) subset_rfl (fun hs => ⟨hs, hn⟩) hunset

theorem Inv.enter {m : Monitor Thread} (h : Inv s) (hfree : s.monitor.owner = none)
    (hm : m = { s.monitor with owner := some t }) (hp : p.inside = true)
    (hn : s.call t ≠ .setNotify) (hunset : p ≠ .waitBlock) : Inv (s.goLocked t p m) :=
  h.go rfl (h.guards.enter hfree (by rw [hm]; rfl) hp) (by rw [hm]; rfl) (fun hs => ⟨hs, hn⟩)
    (fun hp => absurd hp hunset)

theorem Inv.lock {m : Monitor Thread} (h : Inv s) (hm : s.monitor.lock t = some m)
    (hp : p.inside = true) (hn : s.call t ≠ .setNotify) (hunset : p ≠ .waitBlock) :
    Inv (s.goLocked t p m) := by
  obtain ⟨hfree, hm⟩ := Monitor.lock_eq hm
  exact h.enter hfree hm hp hn hunset

theorem Inv.unlock (h : Inv s) (hin : (s.call t).inside = true) (hn : s.call t ≠ .setNotify) :
    Inv (s.goLocked t .idle s.monitor.unlock) :=
  h.go rfl (h.guards.leave hin rfl rfl) subset_rfl (fun hs => ⟨hs, hn⟩) nofun

/-- Storing the flag is the one step that makes a notification necessary. -/
theorem Inv.store (h : Inv s) (ht : s.call t = .setStore) (hone : s.monitor.waiting.card ≤ 1) :
    Inv { s.go t .setNotify with isSet := true } where
  guards := h.guards.stay rfl (by rw [ht]; rfl)
  unset u hu := by
    obtain ⟨hne, hs⟩ := waitBlock_of_update hu nofun
    exact absurd (h.guards.eq (by rw [hs]; rfl) (by rw [ht]; rfl)) hne
  woken _ _ := ⟨⟨t, Function.update_self ..⟩, hone⟩

theorem Inv.notify {m : Monitor Thread} {notified : Thread} (h : Inv s)
    (ht : s.call t = .setNotify) (hm : s.monitor.notifyOne notified = some m) :
    Inv (s.goLocked t .setUnlock m) where
  guards := h.guards.stay (Monitor.notifyOne_owner hm) (by rw [ht]; rfl)
  unset u hu := h.unset u (waitBlock_of_update hu nofun).2
  woken hs hne := by
    have hsub : m.waiting ⊆ s.monitor.waiting := by
      rw [Monitor.notifyOne_waiting hm]
      exact Finset.erase_subset _ _
    have hcard := (h.woken hs (hne.mono hsub)).2
    have hrest := Monitor.notifyOne_card hm
    have hpos : 0 < m.waiting.card := Finset.card_pos.mpr hne
    omega

theorem Inv.block (h : Inv s) (ht : s.call t = .waitBlock) :
    Inv (s.goLocked t .waitReacquire (s.monitor.wait t)) where
  guards := h.guards.leave (by rw [ht]; rfl) rfl rfl
  unset u hu := h.unset u (waitBlock_of_update hu nofun).2
  woken hs := by
    have hunset : s.isSet = false := h.unset t ht
    exact absurd (hunset.symm.trans hs) nofun

theorem Inv.callStep {notified : Thread} (h : Inv s)
    (hone : s.call t = .setStore → s.monitor.waiting.card ≤ 1)
    (ha : callStep s t notified (s.call t) = some s') : Inv s' := by
  cases hp : s.call t with rw [hp] at ha
  | idle => cases ha
  | setLock | resetLock | waitLock =>
      obtain ⟨m, hm, rfl⟩ := Option.map_eq_some_iff.mp ha
      exact h.lock hm rfl (by rw [hp]; nofun) nofun
  | setTest | waitTest =>
      cases ha
      refine h.plain ?_ (by rw [hp]; nofun) ?_
      · rw [hp]
        split_ifs <;> rfl
      · split_ifs <;> nofun
  | setStore =>
      cases ha
      exact h.store hp (hone hp)
  | setNotify =>
      obtain ⟨m, hm, rfl⟩ := Option.map_eq_some_iff.mp ha
      exact h.notify hp hm
  | setUnlock | resetUnlock | waitUnlock =>
      cases ha
      exact h.unlock (by rw [hp]; rfl) (by rw [hp]; nofun)
  | resetStore =>
      cases ha
      exact h.go rfl (h.guards.stay rfl (by rw [hp]; rfl)) subset_rfl nofun nofun
  | waitPredicate =>
      cases ha
      refine h.plain ?_ (by rw [hp]; nofun) ?_
      · rw [hp]
        split_ifs <;> rfl
      · split_ifs with hs
        · nofun
        · exact fun _ => by simpa using hs
  | waitBlock =>
      cases ha
      exact h.block hp
  | waitReacquire =>
      obtain ⟨m, hm, rfl⟩ := Option.map_eq_some_iff.mp ha
      obtain ⟨_, hfree, hm⟩ := Monitor.reacquire_eq hm
      exact h.enter hfree hm rfl (by rw [hp]; nofun) nofun

theorem Inv.begin (h : Inv s) (hp : p.inside = false) (ht : s.call t = .idle) : Inv (s.go t p) :=
  h.plain (by rw [hp, ht]; rfl) (by rw [ht]; nofun) (by rintro rfl; cases hp)

theorem Inv.step {a : Action Thread} (h : Inv s) (hone : OneWaiter s a)
    (ha : step s a = some s') : Inv s' := by
  cases a with
  | set t | reset t | wait t =>
      obtain ⟨ht, ha⟩ := Option.ite_none_right_eq_some.mp ha
      cases ha
      exact h.begin rfl ht
  | call t notified => exact h.callStep hone ha
  | spurious t =>
      cases ha
      exact ⟨h.guards, h.unset, fun hs hne =>
        have hsub : s.monitor.waiting.erase t ⊆ s.monitor.waiting := Finset.erase_subset _ _
        ⟨(h.woken hs (hne.mono hsub)).1,
          (Finset.card_le_card hsub).trans (h.woken hs (hne.mono hsub)).2⟩⟩

theorem inv_of_reachWhile (hs : (system Thread).ReachWhile OneWaiter s) : Inv s := by
  refine StepSystem.ReachWhile.invariant ?_ (fun s a s' h hone ha => h.step hone ha) hs
  rintro _ ⟨initiallySet, rfl⟩
  exact ⟨fun t => ⟨nofun, nofun⟩, nofun, fun _ hne => absurd hne Finset.not_nonempty_empty⟩

omit [DecidableEq Thread] in
theorem Inv.not_stuck (h : Inv s) : ¬ Stuck s := by
  intro hstuck
  obtain ⟨t, ht⟩ := hstuck.waits
  obtain ⟨⟨u, hu⟩, _⟩ := h.woken hstuck.isSet ⟨t, (hstuck.blocked t ht).2⟩
  have := (hstuck.blocked u (by rw [hu]; nofun)).1
  rw [hu] at this
  cases this

/-- One notification suffices as long as one thread waits for it. -/
theorem set_strands_nobody (hs : (system Thread).ReachWhile OneWaiter s) : ¬ Stuck s :=
  (inv_of_reachWhile hs).not_stuck

instance (s : State Thread) : ∀ a : Action Thread, Decidable (OneWaiter s a)
  | .call t _ => inferInstanceAs (Decidable (s.call t = .setStore → s.monitor.waiting.card ≤ 1))
  | .set _ | .reset _ | .wait _ | .spurious _ => inferInstanceAs (Decidable True)

def waitBlocks (t : Thread) : List (Action Thread) := .wait t :: List.replicate 4 (.call t t)

def setWakes (t u : Thread) : List (Action Thread) := .set t :: List.replicate 5 (.call t u)

theorem set_strands_nobody_woken :
    ∃ s : State (Fin 2), s.isSet = true ∧ s.call 0 = .waitReacquire ∧ s.call 1 = .idle ∧
      ¬ Stuck s := by
  obtain ⟨s, hr, hdata⟩ := StepSystem.Reach.exists_of_exec
    (M := (system (Fin 2)).restrict OneWaiter)
    (P := fun s => s.isSet = true ∧ s.call 0 = .waitReacquire ∧ s.call 1 = .idle)
    (.start ⟨false, rfl⟩) (waitBlocks 0 ++ setWakes 1 0) (by decide)
  exact ⟨s, hdata.1, hdata.2.1, hdata.2.2, set_strands_nobody hr.reachWhile⟩

/-- Two threads wait when the event is set; the one that was woken leaves, and
the other one waits for a notification that nobody is going to send. -/
theorem set_strands_second_waiter : ∃ s : State (Fin 3), (system (Fin 3)).Reach s ∧ Stuck s := by
  obtain ⟨s, hr, hset, hidle, hcall, hwaiting⟩ := StepSystem.Reach.exists_of_exec
    (M := system (Fin 3))
    (P := fun s => s.isSet = true ∧ (∀ t, t ≠ 1 → s.call t = .idle) ∧
      s.call 1 = .waitReacquire ∧ 1 ∈ s.monitor.waiting)
    (.start ⟨false, rfl⟩)
    (waitBlocks 0 ++ waitBlocks 1 ++ setWakes 2 0 ++ List.replicate 3 (.call 0 0)) (by decide)
  refine ⟨s, hr, hset, ?_, 1, by rw [hcall]; nofun⟩
  intro t ht
  by_cases h : t = 1
  · rw [h]
    exact ⟨hcall, hwaiting⟩
  · exact absurd (hidle t h) ht

end LevelzAsync.SyncManualResetEvent
