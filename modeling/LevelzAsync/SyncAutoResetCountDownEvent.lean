import LevelzAsync.Monitor
import LevelzAsync.StepSystem
import Mathlib.Tactic.Ring

/-!
# The count-down event of blocking threads

`SyncAutoResetCountDownEvent` counts `set` calls down from its initial count, lets one
`wait` through when it is at zero, and begins again. Both calls work under one mutex; a
step is taking the mutex, one access to `m_count`, the notification, or the wait, after
which the loop reads the count again. How many calls of `set` have counted and how many
of `wait` have begun a new round is kept beside the event.
-/

namespace LevelzAsync.SyncAutoResetCountDownEvent

inductive Call
  | idle
  | setLock
  | setDecrement
  | setTest
  | setNotify
  | waitLock
  | waitTest
  | waitBlock
  | waitReacquire
  | waitReset
  | unlock
  deriving DecidableEq

structure State (Thread : Type*) where
  initialCount : ℤ
  count : ℤ
  monitor : Monitor Thread
  call : Thread → Call
  counted : ℕ
  rounds : ℕ

inductive Action (Thread : Type*)
  | set (t : Thread)
  | wait (t : Thread)
  | call (t notified : Thread)
  | spurious (t : Thread)

variable {Thread : Type*} [DecidableEq Thread]

def State.go (s : State Thread) (t : Thread) (p : Call) : State Thread :=
  { s with call := Function.update s.call t p }

def State.goLocked (s : State Thread) (t : Thread) (p : Call) (m : Monitor Thread) :
    State Thread :=
  { s.go t p with monitor := m }

def callStep (s : State Thread) (t notified : Thread) : Call → Option (State Thread)
  | .idle => none
  | .setLock => (s.monitor.lock t).map (s.goLocked t .setDecrement)
  | .setDecrement =>
      some (if 0 < s.count then
          { s.go t .setTest with count := s.count - 1, counted := s.counted + 1 }
        else s.go t .setTest)
  | .setTest => some (s.go t (if s.count = 0 then .setNotify else .unlock))
  | .setNotify => (s.monitor.notifyOne notified).map (s.goLocked t .unlock)
  | .waitLock => (s.monitor.lock t).map (s.goLocked t .waitTest)
  | .waitTest => some (s.go t (if s.count ≠ 0 then .waitBlock else .waitReset))
  | .waitBlock => some (s.goLocked t .waitReacquire (s.monitor.wait t))
  | .waitReacquire => (s.monitor.reacquire t).map (s.goLocked t .waitTest)
  | .waitReset => some { s.go t .unlock with count := s.initialCount, rounds := s.rounds + 1 }
  | .unlock => some (s.goLocked t .idle s.monitor.unlock)

def step (s : State Thread) : Action Thread → Option (State Thread)
  | .set t => if s.call t = .idle then some (s.go t .setLock) else none
  | .wait t => if s.call t = .idle then some (s.go t .waitLock) else none
  | .call t notified => callStep s t notified (s.call t)
  | .spurious t => some { s with monitor := s.monitor.wake t }

def initial (initialCount : ℤ) : State Thread where
  initialCount := initialCount
  count := initialCount
  monitor := .free
  call _ := .idle
  counted := 0
  rounds := 0

def system (Thread : Type*) [DecidableEq Thread] :
    StepSystem (State Thread) (Action Thread) where
  start s := ∃ initialCount, s = initial initialCount
  step := step

/-- The count is zero, and every thread that is left is blocked in `wait` with no wake-up
on its way. -/
structure Stuck (s : State Thread) : Prop where
  count : s.count = 0
  blocked : ∀ t, s.call t ≠ .idle → s.call t = .waitReacquire ∧ t ∈ s.monitor.waiting
  waits : ∃ t, s.call t ≠ .idle

def Call.inside : Call → Bool
  | .setDecrement | .setTest | .setNotify | .waitTest | .waitBlock | .waitReset | .unlock => true
  | _ => false

def State.Alert (s : State Thread) (t : Thread) : Prop :=
  s.call t = .setTest ∨ s.call t = .setNotify ∨ s.call t = .waitTest ∨ s.call t = .waitReset ∨
    s.call t = .waitReacquire ∧ t ∉ s.monitor.waiting

structure Inv (s : State Thread) : Prop where
  guards : s.monitor.Guards Call.inside s.call
  blocked : ∀ t ∈ s.monitor.waiting, s.call t = .waitReacquire
  block : ∀ t, s.call t = .waitBlock → s.count ≠ 0
  reset : ∀ t, s.call t = .waitReset → s.count = 0
  woken : s.count = 0 → s.monitor.waiting.Nonempty → ∃ t, s.Alert t
  ledger : s.counted + s.count = (s.rounds + 1) * s.initialCount
  range : 0 ≤ s.initialCount → 0 ≤ s.count ∧ s.count ≤ s.initialCount
  stays : s.initialCount ≤ 0 → s.count = s.initialCount
  empty : s.initialCount = 0 → s.monitor.waiting = ∅

variable {s s' : State Thread} {t : Thread} {p : Call}

omit [DecidableEq Thread] in
theorem Inv.not_stuck (h : Inv s) : ¬ Stuck s := by
  intro hstuck
  obtain ⟨t, ht⟩ := hstuck.waits
  obtain ⟨u, hu⟩ := h.woken hstuck.count ⟨t, (hstuck.blocked t ht).2⟩
  have hcall : s.call u ≠ .idle := by
    rintro hidle
    rcases hu with h | h | h | h | ⟨h, -⟩ <;> rw [hidle] at h <;> cases h
  obtain ⟨hre, hmem⟩ := hstuck.blocked u hcall
  rcases hu with h | h | h | h | ⟨-, h⟩
  · rw [hre] at h
    cases h
  · rw [hre] at h
    cases h
  · rw [hre] at h
    cases h
  · rw [hre] at h
    cases h
  · exact h hmem

theorem Inv.move (h : Inv s) (hcall : s'.call = Function.update s.call t p)
    (hinitial : s'.initialCount = s.initialCount) (hcount : s'.count = s.count)
    (hcounted : s'.counted = s.counted) (hrounds : s'.rounds = s.rounds)
    (hguards : s'.monitor.Guards Call.inside s'.call)
    (hwaiting : s'.monitor.waiting ⊆ s.monitor.waiting)
    (hself : t ∈ s'.monitor.waiting → p = .waitReacquire)
    (hblock : p = .waitBlock → s.count ≠ 0) (hreset : p = .waitReset → s.count = 0)
    (halert : s.count = 0 → s'.monitor.waiting.Nonempty → s.Alert t → ∃ u, s'.Alert u) :
    Inv s' where
  guards := hguards
  blocked u hu := by
    rw [hcall]
    by_cases hut : u = t
    · subst hut
      rw [Function.update_self]
      exact hself hu
    · rw [Function.update_of_ne hut]
      exact h.blocked u (hwaiting hu)
  block u hu := by
    rw [hcount]
    rcases agent_cases (Q := fun p => p = .waitBlock) hcall hu with ⟨-, hp⟩ | ⟨-, hs⟩
    · exact hblock hp
    · exact h.block u hs
  reset u hu := by
    rw [hcount]
    rcases agent_cases (Q := fun p => p = .waitReset) hcall hu with ⟨-, hp⟩ | ⟨-, hs⟩
    · exact hreset hp
    · exact h.reset u hs
  woken hzero hne := by
    rw [hcount] at hzero
    obtain ⟨u, hu⟩ := h.woken hzero (hne.mono hwaiting)
    by_cases hut : u = t
    · exact halert hzero hne (hut ▸ hu)
    · refine ⟨u, ?_⟩
      unfold State.Alert
      rw [hcall, Function.update_of_ne hut]
      exact hu.imp_right (Or.imp_right (Or.imp_right (Or.imp_right
        (And.imp_right fun hnot hmem => hnot (hwaiting hmem)))))
  ledger := by
    rw [hcounted, hcount, hrounds, hinitial]
    exact h.ledger
  range := by
    rw [hcount, hinitial]
    exact h.range
  stays := by
    rw [hcount, hinitial]
    exact h.stays
  empty hzero := by
    rw [hinitial] at hzero
    exact Finset.subset_empty.mp (h.empty hzero ▸ hwaiting)

omit [DecidableEq Thread] in
theorem Inv.not_mem_waiting (h : Inv s) (ht : s.call t ≠ .waitReacquire) :
    t ∉ s.monitor.waiting := fun hmem => ht (h.blocked t hmem)

theorem Inv.enter {m : Monitor Thread} (h : Inv s) (hfree : s.monitor.owner = none)
    (hm : m = { s.monitor with owner := some t }) (ht : t ∉ s.monitor.waiting)
    (hp : p.inside = true) (hblock : p ≠ .waitBlock) (hreset : p ≠ .waitReset)
    (halert : s.Alert t → p = .waitTest) : Inv (s.goLocked t p m) := by
  subst hm
  refine h.move rfl rfl rfl rfl rfl (h.guards.enter hfree rfl hp) subset_rfl
    (fun hmem => absurd hmem ht) (fun he => absurd he hblock) (fun he => absurd he hreset)
    fun _ _ ha => ⟨t, .inr (.inr (.inl ?_))⟩
  exact (Function.update_self ..).trans (halert ha)

theorem Inv.stay (h : Inv s) (hin : (s.call t).inside = true) (hp : p.inside = true)
    (hblock : p = .waitBlock → s.count ≠ 0) (hreset : p = .waitReset → s.count = 0)
    (halert : s.count = 0 → s.Alert t → p = .setNotify ∨ p = .waitReset) : Inv (s.go t p) := by
  have ht : t ∉ s.monitor.waiting := by
    refine h.not_mem_waiting fun he => ?_
    rw [he] at hin
    cases hin
  refine h.move rfl rfl rfl rfl rfl (h.guards.stay rfl (hp.trans hin.symm)) subset_rfl
    (fun hmem => absurd hmem ht) hblock hreset fun hzero _ ha => ⟨t, ?_⟩
  have hself : (s.go t p).call t = p := Function.update_self ..
  unfold State.Alert
  rw [hself]
  rcases halert hzero ha with hp | hp
  · exact .inr (.inl hp)
  · exact .inr (.inr (.inr (.inl hp)))

/-- The thread that has the mutex changes the count. -/
theorem Inv.count_eq {q : Call} (h : Inv s) (hin : (s.call t).inside = true) {u : Thread}
    (hu : Function.update s.call t p u = q) (hq : q.inside = true) (hp : p ≠ q) : False := by
  by_cases hut : u = t
  · subst hut
    rw [Function.update_self] at hu
    exact hp hu
  · rw [Function.update_of_ne hut] at hu
    exact hut (h.guards.eq (by rw [hu]; exact hq) hin)

theorem Inv.decrement (h : Inv s) (ht : s.call t = .setDecrement) (hpos : 0 < s.count) :
    Inv { s.go t .setTest with count := s.count - 1, counted := s.counted + 1 } where
  guards := h.guards.stay rfl (by rw [ht]; rfl)
  blocked u hu := by
    have hut : u ≠ t := by
      rintro rfl
      have hblocked := h.blocked u hu
      rw [ht] at hblocked
      cases hblocked
    exact (Function.update_of_ne hut ..).trans (h.blocked u hu)
  block u hu := (h.count_eq (by rw [ht]; rfl) hu rfl nofun).elim
  reset u hu := (h.count_eq (by rw [ht]; rfl) hu rfl nofun).elim
  woken _ _ := ⟨t, .inl (Function.update_self ..)⟩
  ledger := by
    have hledger := h.ledger
    change ((s.counted + 1 : ℕ) : ℤ) + (s.count - 1) = (s.rounds + 1) * s.initialCount
    rw [← hledger]
    push_cast
    ring
  range hinitial := by
    have hrange := h.range hinitial
    constructor
    · change 0 ≤ s.count - 1
      omega
    · change s.count - 1 ≤ s.initialCount
      omega
  stays hinitial := by
    have hinitial : s.initialCount ≤ 0 := hinitial
    have hstays := h.stays hinitial
    omega
  empty := h.empty

theorem Inv.begin (h : Inv s) (ht : s.call t = .waitReset) :
    Inv { s.go t .unlock with count := s.initialCount, rounds := s.rounds + 1 } where
  guards := h.guards.stay rfl (by rw [ht]; rfl)
  blocked u hu := by
    have hut : u ≠ t := by
      rintro rfl
      have hblocked := h.blocked u hu
      rw [ht] at hblocked
      cases hblocked
    exact (Function.update_of_ne hut ..).trans (h.blocked u hu)
  block u hu := (h.count_eq (by rw [ht]; rfl) hu rfl nofun).elim
  reset u hu := (h.count_eq (by rw [ht]; rfl) hu rfl nofun).elim
  woken hzero hne := by
    have hempty : s.monitor.waiting = ∅ := h.empty hzero
    have hne : s.monitor.waiting.Nonempty := hne
    rw [hempty] at hne
    exact absurd hne Finset.not_nonempty_empty
  ledger := by
    have hledger := h.ledger
    rw [h.reset t ht, add_zero] at hledger
    change (s.counted : ℤ) + s.initialCount = ((s.rounds + 1 : ℕ) + 1) * s.initialCount
    rw [hledger]
    push_cast
    ring
  range hinitial := ⟨hinitial, le_rfl⟩
  stays _ := rfl
  empty := h.empty

theorem Inv.notify {m : Monitor Thread} {notified : Thread} (h : Inv s)
    (ht : s.call t = .setNotify) (hm : s.monitor.notifyOne notified = some m) :
    Inv (s.goLocked t .unlock m) := by
  have hsub : m.waiting ⊆ s.monitor.waiting := by
    rw [Monitor.notifyOne_waiting hm]
    exact Finset.erase_subset _ _
  have hout : t ∉ s.monitor.waiting := h.not_mem_waiting (by rw [ht]; nofun)
  refine h.move rfl rfl rfl rfl rfl
    (h.guards.stay (Monitor.notifyOne_owner hm) (by rw [ht]; rfl)) hsub
    (fun hmem => absurd (hsub hmem) hout) nofun nofun fun _ hne _ => ⟨notified, ?_⟩
  -- the thread that was woken reads the count again
  obtain ⟨v, hv⟩ := hne
  have hnotified := Monitor.mem_of_notifyOne hm (hsub hv)
  refine .inr (.inr (.inr (.inr ⟨?_, ?_⟩)))
  · refine (Function.update_of_ne ?_ ..).trans (h.blocked notified hnotified)
    rintro rfl
    exact hout hnotified
  · change notified ∉ m.waiting
    rw [Monitor.notifyOne_waiting hm]
    exact Finset.notMem_erase notified s.monitor.waiting

theorem Inv.wait (h : Inv s) (ht : s.call t = .waitBlock) :
    Inv (s.goLocked t .waitReacquire (s.monitor.wait t)) where
  guards := h.guards.leave (by rw [ht]; rfl) rfl rfl
  blocked u hu := by
    by_cases hut : u = t
    · subst hut
      exact Function.update_self ..
    · exact (Function.update_of_ne hut ..).trans
        (h.blocked u (Finset.mem_of_mem_insert_of_ne hu hut))
  block u _ := h.block t ht
  reset u hu := (h.count_eq (by rw [ht]; rfl) hu rfl nofun).elim
  woken hzero := absurd hzero (h.block t ht)
  ledger := h.ledger
  range := h.range
  stays := h.stays
  empty hinitial := by
    have hinitial : s.initialCount = 0 := hinitial
    have hstays := h.stays hinitial.le
    exact absurd (hstays.trans hinitial) (h.block t ht)

omit [DecidableEq Thread] in
theorem not_alert (h : s.call t = .idle ∨ s.call t = .setLock ∨ s.call t = .setDecrement ∨
    s.call t = .waitLock ∨ s.call t = .unlock) : ¬ s.Alert t := by
  unfold State.Alert
  rcases h with h | h | h | h | h <;> rw [h] <;> simp

theorem Inv.callStep {notified : Thread} (h : Inv s)
    (ha : callStep s t notified (s.call t) = some s') : Inv s' := by
  cases hp : s.call t with rw [hp] at ha
  | idle => cases ha
  | setLock | waitLock =>
      obtain ⟨m, hm, rfl⟩ := Option.map_eq_some_iff.mp ha
      obtain ⟨hfree, hm⟩ := Monitor.lock_eq hm
      refine h.enter hfree hm (h.not_mem_waiting (by rw [hp]; nofun)) rfl nofun nofun fun hal => ?_
      exact absurd hal (not_alert (by simp [hp]))
  | setDecrement =>
      cases ha
      split_ifs with hpos
      · exact h.decrement hp hpos
      · refine h.stay (by rw [hp]; rfl) rfl nofun nofun fun _ hal => ?_
        exact absurd hal (not_alert (by simp [hp]))
  | setTest =>
      cases ha
      split_ifs with hzero
      · exact h.stay (by rw [hp]; rfl) rfl nofun nofun fun _ _ => .inl rfl
      · exact h.stay (by rw [hp]; rfl) rfl nofun nofun fun hz => absurd hz hzero
  | setNotify =>
      obtain ⟨m, hm, rfl⟩ := Option.map_eq_some_iff.mp ha
      exact h.notify hp hm
  | waitTest =>
      cases ha
      split_ifs with hne
      · exact h.stay (by rw [hp]; rfl) rfl (fun _ => hne) nofun fun hz => absurd hz hne
      · have hzero : s.count = 0 := by simpa using hne
        exact h.stay (by rw [hp]; rfl) rfl nofun (fun _ => hzero) fun _ _ => .inr rfl
  | waitBlock =>
      cases ha
      exact h.wait hp
  | waitReacquire =>
      obtain ⟨m, hm, rfl⟩ := Option.map_eq_some_iff.mp ha
      obtain ⟨hout, hfree, hm⟩ := Monitor.reacquire_eq hm
      exact h.enter hfree hm hout rfl nofun nofun fun _ => rfl
  | waitReset =>
      cases ha
      exact h.begin hp
  | unlock =>
      cases ha
      refine h.move rfl rfl rfl rfl rfl (h.guards.leave (by rw [hp]; rfl) rfl rfl) subset_rfl
        (fun hmem => absurd hmem (h.not_mem_waiting (by rw [hp]; nofun))) nofun nofun
        fun _ _ hal => absurd hal (not_alert (by simp [hp]))

theorem Inv.step {a : Action Thread} (h : Inv s) (ha : step s a = some s') : Inv s' := by
  cases a with
  | set t | wait t =>
      obtain ⟨ht, he⟩ := Option.ite_none_right_eq_some.mp ha
      cases he
      refine h.move rfl rfl rfl rfl rfl (h.guards.stay rfl (by rw [ht]; rfl)) subset_rfl
        (fun hmem => absurd hmem (h.not_mem_waiting (by rw [ht]; nofun))) nofun nofun
        fun _ _ hal => absurd hal (not_alert (.inl ht))
  | call t notified => exact h.callStep ha
  | spurious t =>
      cases ha
      have hsub : s.monitor.waiting.erase t ⊆ s.monitor.waiting := Finset.erase_subset _ _
      refine ⟨h.guards, fun u hu => h.blocked u (hsub hu), h.block, h.reset, fun hzero hne => ?_,
        h.ledger, h.range, h.stays, fun hz => Finset.subset_empty.mp (h.empty hz ▸ hsub)⟩
      obtain ⟨u, hu⟩ := h.woken hzero (hne.mono hsub)
      exact ⟨u, hu.imp_right (Or.imp_right (Or.imp_right (Or.imp_right
        (And.imp_right fun hnot hmem => hnot (hsub hmem)))))⟩

theorem inv_of_reach (hs : (system Thread).Reach s) : Inv s := by
  refine hs.invariant (fun s hstart => ?_) fun s a s' h ha => h.step ha
  obtain ⟨initialCount, rfl⟩ := hstart
  refine ⟨fun t => ⟨nofun, nofun⟩, fun t ht => absurd ht (Finset.notMem_empty t), nofun, nofun,
    fun _ hne => absurd hne Finset.not_nonempty_empty, ?_, fun h => ⟨h, le_rfl⟩, fun _ => rfl,
    fun _ => rfl⟩
  change ((0 : ℕ) : ℤ) + initialCount = ((0 : ℕ) + 1) * initialCount
  simp

/-- No waiter is left behind at a count of zero, however many threads wait, and every
round has taken exactly as many calls of `set` as the initial count says: with `rounds`
begun, the calls that have counted and the count make up `rounds + 1` initial counts. -/
theorem rounds_are_exact (hs : (system Thread).Reach s) :
    ¬ Stuck s ∧ s.counted + s.count = (s.rounds + 1) * s.initialCount ∧
      (0 ≤ s.initialCount → 0 ≤ s.count ∧ s.count ≤ s.initialCount) ∧
      (s.initialCount < 0 → s.rounds = 0) := by
  have h := inv_of_reach hs
  refine ⟨h.not_stuck, h.ledger, h.range, fun hneg => ?_⟩
  have hledger := h.ledger
  rw [h.stays hneg.le, add_one_mul, add_left_inj] at hledger
  -- the calls that count are never negative, a round of a negative count would be
  by_contra hrounds
  have hpos : (0 : ℤ) < s.rounds := by omega
  have hlt := Int.mul_neg_of_pos_of_neg hpos hneg
  omega

/-- Two threads block, one `set` counts the event down, and the thread it wakes begins the
second round while the other goes on waiting. -/
theorem rounds_are_exact_two_waiters :
    ∃ s : State (Fin 3), s.rounds = 1 ∧ s.monitor.waiting = {1} ∧ ¬ Stuck s ∧
      s.counted + s.count = (s.rounds + 1) * s.initialCount := by
  obtain ⟨s, hr, hrounds, hwaiting⟩ := StepSystem.Reach.exists_of_exec
    (M := system (Fin 3)) (P := fun s => s.rounds = 1 ∧ s.monitor.waiting = {1})
    (.start ⟨1, rfl⟩)
    [.wait 0, .call 0 0, .call 0 0, .call 0 0, .wait 1, .call 1 1, .call 1 1, .call 1 1,
      .set 2, .call 2 0, .call 2 0, .call 2 0, .call 2 0, .call 2 0,
      .call 0 0, .call 0 0, .call 0 0, .call 0 0] (by decide)
  obtain ⟨hstuck, hledger, -, -⟩ := rounds_are_exact hr
  exact ⟨s, hrounds, hwaiting, hstuck, hledger⟩

end LevelzAsync.SyncAutoResetCountDownEvent
