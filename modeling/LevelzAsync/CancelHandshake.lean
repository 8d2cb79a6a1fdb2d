import LevelzAsync.CoroutineCancel

/-!
# The awaiter that a canceller works on

Between `PauseOnRunning` and `Resumed` the coroutine cannot leave `onResume`: its
request for `Running` finds `PauseOnRunning` and becomes `Paused`, and it spins
until the canceller is done. So `m_awaiters` has nothing but the awaiter of the
suspension that the canceller has paused.
-/

namespace LevelzAsync.CoroutineCancel

open CoroutineStatus

namespace CancelPc

/-- Past the test of `m_cancelled`. -/
def active : CancelPc → Bool
  | idle | check | returned => false
  | _ => true

def marked : CancelPc → Bool
  | idle | check | mark => false
  | _ => true

/-- Between `PauseOnRunning` and `Resumed`. -/
def isPausing : CancelPc → Bool
  | dequeue _ | listCount _ _ | maybeBlocked _ _ | cancelAwaiter _ _ | schedule _ | checkPaused _
  | resume => true
  | _ => false

/-- The awaiter is out of the list and still counted. -/
def counts : CancelPc → Bool
  | listCount _ _ => true
  | _ => false

def awaiter : CancelPc → Option Awaiter
  | listCount awaiter _ | maybeBlocked awaiter _ | cancelAwaiter awaiter _ => some awaiter
  | _ => none

theorem active_of_isPausing {q : CancelPc} (h : q.isPausing = true) : q.active = true := by
  cases q <;> first | rfl | cases h

theorem isPausing_of_counts {q : CancelPc} (h : q.counts = true) : q.isPausing = true := by
  cases q <;> first | rfl | cases h

theorem isPausing_of_awaiter {q : CancelPc} {a : Awaiter} (h : q.awaiter = some a) :
    q.isPausing = true := by
  cases q <;> first | rfl | cases h

end CancelPc

namespace OwnPc

def isSuspended : OwnPc → Bool
  | register _ | parked | removeCount | removeDequeue _ | removeListCount _ _ | removeEnqueue _ _
  | removeEnqueueCount _ | setRunning | spinPaused => true
  | _ => false

/-- The statuses of a coroutine there, with and without a canceller that pauses it. -/
def statuses (own : OwnPc) (pausing : Bool) : List CoroutineStatus :=
  match own, pausing with
  | register _, false | parked, false => [.suspended]
  | removeCount, false | removeDequeue _, false | removeListCount _ _, false
  | removeEnqueue _ _, false | removeEnqueueCount _, false | setRunning, false =>
      [.running, .suspended]
  | register _, true | parked, true | removeCount, true | removeDequeue _, true
  | removeListCount _ _, true | removeEnqueue _ _, true | removeEnqueueCount _, true
  | setRunning, true => [.pauseOnRunning]
  | spinPaused, true => [.paused]
  | body, false | addAwaiter, false | addCount, false | ready, false | suspendRead, false
  | suspend _, false | spinPaused, false | setReturned, false => [.running]
  | setCompleted, false => [.returned]
  | finalSuspend, false => [.returnedCompleted]
  | finalSuspended, false => [.completedFinalSuspended]
  | _, true => []

def lists : OwnPc → Bool
  | addCount | ready | suspendRead | suspend _ | register _ | parked | removeCount
  | removeDequeue _ => true
  | _ => false

/-- The awaiter is in the list and not yet counted. -/
def adds : OwnPc → ℕ
  | addCount => 1
  | _ => 0

/-- The awaiter is out of the list and still counted. -/
def takes : OwnPc → ℕ
  | removeListCount _ _ => 1
  | _ => 0

/-- What `remove` knows about the list `awaiters` of the awaiter `awaiter`. -/
def knows (own : OwnPc) (awaiter : Awaiter) (awaiters : List Awaiter) : Prop :=
  match own with
  | removeDequeue left => awaiters ≠ [] → 0 < left
  | removeListCount node _ => node = awaiter
  | removeEnqueue _ _ | removeEnqueueCount _ => False
  | _ => True

theorem isSuspended_of_pausing {own : OwnPc} {status : CoroutineStatus}
    (h : status ∈ own.statuses true) :
    own.isSuspended = true ∧ (status = .pauseOnRunning ∨ status = .paused) := by
  cases own <;> simp_all [statuses, isSuspended]

/-- The request for `PauseOnRunning` does something to a suspended coroutine only. -/
theorem pause_cases {own : OwnPc} {status : CoroutineStatus}
    (h : status ∈ own.statuses false) :
    (status = .suspended ∧ .pauseOnRunning ∈ own.statuses true) ∨
    (status ≠ .suspended ∧ CoroutineStatus.setStatus false status .pauseOnRunning = some status) ∨
    CoroutineStatus.setStatus false status .pauseOnRunning = none := by
  cases own <;> simp only [statuses, List.mem_singleton, List.mem_pair] at h ⊢ <;>
    rcases h with rfl | rfl <;> simp [CoroutineStatus.setStatus]

theorem resume_cases {own : OwnPc} {status : CoroutineStatus}
    (h : status ∈ own.statuses true) : ∃ new,
    CoroutineStatus.setStatus false status .resumed = some new ∧ new ∈ own.statuses false := by
  cases own <;> simp_all [statuses, CoroutineStatus.setStatus]

theorem adds_of_pausing {own : OwnPc} {status : CoroutineStatus}
    (h : status ∈ own.statuses true) : own.adds = 0 := by
  cases own <;> first | rfl | cases h

end OwnPc

structure Inv {Canceller : Type*} (s : State Canceller) : Prop where
  unique : ∀ i j, (s.canceller i).active = true → (s.canceller j).active = true → i = j
  marked : ∀ i, (s.canceller i).marked = true → s.cancelled = true
  resting : (∀ i, (s.canceller i).isPausing = false) → s.status ∈ s.own.statuses false
  pausing : ∀ i, (s.canceller i).isPausing = true → s.status ∈ s.own.statuses true
  list : s.awaiters = [] ∨ s.awaiters = [s.awaiter] ∧ s.own.lists = true
  counted : (∀ i, (s.canceller i).counts = false) →
    s.awaitersCount + s.own.adds = s.awaiters.length + s.own.takes
  counting : ∀ i, (s.canceller i).counts = true →
    s.awaitersCount + s.own.adds = s.awaiters.length + s.own.takes + 1
  knows : s.own.knows s.awaiter s.awaiters
  hand : ∀ i a, (s.canceller i).awaiter = some a → a = s.awaiter

/-- Everything that the invariant speaks of but the coroutine's own next step. -/
structure Keeps {Canceller : Type*} (s s' : State Canceller) : Prop where
  canceller : s'.canceller = s.canceller
  cancelled : s'.cancelled = s.cancelled
  status : s'.status = s.status
  awaiter : s'.awaiter = s.awaiter
  awaiters : s'.awaiters = s.awaiters
  awaitersCount : s'.awaitersCount = s.awaitersCount

variable {Canceller : Type*} {s s' : State Canceller}

theorem State.setStatus_pauseOnRunning (hs : s.status = .suspended)
    (next : CoroutineStatus → State Canceller → State Canceller) :
    s.setStatus false .pauseOnRunning next =
      next .suspended { s with status := .pauseOnRunning } := by
  rw [State.setStatus, hs]
  rfl

theorem Inv.status (h : Inv s) : ∃ pausing, s.status ∈ s.own.statuses pausing := by
  by_cases hp : ∃ i, (s.canceller i).isPausing = true
  · obtain ⟨i, hi⟩ := hp
    exact ⟨true, h.pausing i hi⟩
  · exact ⟨false, h.resting fun i => by simpa using fun hi => hp ⟨i, hi⟩⟩

theorem Inv.moveOwn (h : Inv s) (hcanceller : s'.canceller = s.canceller)
    (hcancelled : s.cancelled = true → s'.cancelled = true)
    (hstatus : ∀ pausing, s.status ∈ s.own.statuses pausing →
      s'.status ∈ s'.own.statuses pausing)
    (hlist : s'.awaiters = [] ∨ s'.awaiters = [s'.awaiter] ∧ s'.own.lists = true)
    (hcount : s'.awaitersCount + s'.own.adds + (s.awaiters.length + s.own.takes) =
      s.awaitersCount + s.own.adds + (s'.awaiters.length + s'.own.takes))
    (hknows : s'.own.knows s'.awaiter s'.awaiters)
    (hawaiter : s'.awaiter = s.awaiter ∨ ∀ i, (s.canceller i).isPausing = false) : Inv s' where
  unique := hcanceller ▸ h.unique
  marked i hi := hcancelled (h.marked i (hcanceller ▸ hi))
  resting hp := hstatus false (h.resting (hcanceller ▸ hp))
  pausing i hi := hstatus true (h.pausing i (hcanceller ▸ hi))
  list := hlist
  counted hc := by
    have := h.counted (hcanceller ▸ hc)
    omega
  counting i hi := by
    have := h.counting i (hcanceller ▸ hi)
    omega
  knows := hknows
  hand i a hi := by
    rw [hcanceller] at hi
    rcases hawaiter with ha | hp
    · rw [ha]
      exact h.hand i a hi
    · have := CancelPc.isPausing_of_awaiter hi
      rw [hp i] at this
      cases this

theorem Inv.goOwn {p : OwnPc} (h : Inv s) (hp : s.own = p)
    (hcanceller : s'.canceller = s.canceller)
    (hcancelled : s.cancelled = true → s'.cancelled = true)
    (hstatus : ∀ pausing, s.status ∈ p.statuses pausing → s'.status ∈ s'.own.statuses pausing)
    (hawaiter : s'.awaiter = s.awaiter) (hawaiters : s'.awaiters = s.awaiters)
    (hcount : s'.awaitersCount = s.awaitersCount)
    (hlists : p.lists = true → s'.own.lists = true ∨ s.awaiters = [])
    (hnumbers : s'.own.adds = p.adds ∧ s'.own.takes = p.takes)
    (hknows : s'.own.knows s.awaiter s.awaiters) : Inv s' := by
  subst hp
  refine h.moveOwn hcanceller hcancelled hstatus ?_ ?_ ?_ (.inl hawaiter)
  · rw [hawaiters, hawaiter]
    rcases h.list with he | ⟨he, hl⟩
    · exact .inl he
    · exact (hlists hl).elim (fun hl => .inr ⟨he, hl⟩) .inl
  · rw [hcount, hawaiters, hnumbers.1, hnumbers.2]
  · rw [hawaiters, hawaiter]
    exact hknows

theorem Inv.awaiters_nil (h : Inv s) (hlists : s.own.lists = false) : s.awaiters = [] :=
  h.list.resolve_right fun hl => by rw [hl.2] at hlists; cases hlists

theorem Inv.length_le_count (h : Inv s) :
    s.awaiters.length + s.own.takes ≤ s.awaitersCount + s.own.adds := by
  by_cases hc : ∃ i, (s.canceller i).counts = true
  · obtain ⟨i, hi⟩ := hc
    have := h.counting i hi
    omega
  · have := h.counted fun i => by simpa using fun hi => hc ⟨i, hi⟩
    omega

theorem Inv.suspend {b₁ b₂ b₃ isCancelled : Bool} (h : Inv s)
    (hown : s.own = .suspend isCancelled)
    (ha : ownStep s b₁ b₂ b₃ (.suspend isCancelled) = some s') :
    Inv s' ∧ s'.aborted = s.aborted := by
  obtain ⟨pausing, hstatus⟩ := h.status
  have hs : s.status = .running := by
    rw [hown] at hstatus
    cases pausing <;> simp_all [OwnPc.statuses]
  simp only [ownStep, State.setStatus, hs, CoroutineStatus.setStatus, Option.some.injEq] at ha
  subst ha
  refine ⟨h.goOwn hown rfl id (fun pausing hp => ?_) rfl rfl rfl (fun _ => .inl ?_) ?_ ?_, rfl⟩
  · cases pausing with
    | true => cases hp
    | false => split_ifs <;> simp [OwnPc.statuses]
  all_goals dsimp only; split_ifs
  · rfl
  · rfl
  · exact ⟨rfl, rfl⟩
  · exact ⟨rfl, rfl⟩
  · trivial
  · trivial

theorem Inv.setRunning {b₁ b₂ b₃ : Bool} (h : Inv s) (hown : s.own = .setRunning)
    (ha : ownStep s b₁ b₂ b₃ .setRunning = some s') : Inv s' ∧ s'.aborted = s.aborted := by
  have hgo : ∀ new, CoroutineStatus.setStatus false s.status .running = some new →
      (∀ pausing, s.status ∈ OwnPc.setRunning.statuses pausing →
        new ∈ (if s.status = .pauseOnRunning then OwnPc.spinPaused else .body).statuses pausing) →
      Inv s' ∧ s'.aborted = s.aborted := by
    intro new hnew hstatus
    simp only [ownStep, State.setStatus_eq hnew, Option.some.injEq] at ha
    subst ha
    refine ⟨h.goOwn hown rfl id hstatus rfl rfl rfl nofun ?_ ?_, rfl⟩
    all_goals dsimp only; split_ifs
    · exact ⟨rfl, rfl⟩
    · exact ⟨rfl, rfl⟩
    · trivial
    · trivial
  obtain ⟨pausing, hstatus⟩ := h.status
  rw [hown] at hstatus
  have hcases : s.status = .running ∨ s.status = .suspended ∨ s.status = .pauseOnRunning := by
    cases pausing with
    | false => exact (List.mem_pair.mp hstatus).imp_right .inl
    | true => exact .inr (.inr (List.mem_singleton.mp hstatus))
  rcases hcases with hs | hs | hs <;> rw [hs] at hgo
  · exact hgo _ rfl fun pausing hp => by cases pausing <;> simp_all [OwnPc.statuses]
  · exact hgo _ rfl fun pausing hp => by cases pausing <;> simp_all [OwnPc.statuses]
  · exact hgo _ rfl fun pausing hp => by cases pausing <;> simp_all [OwnPc.statuses]

/-- `remove` finds the awaiter, unless a canceller has taken it out before. -/
theorem Inv.removeDequeue {b₁ b₂ b₃ : Bool} {left : ℕ} (h : Inv s)
    (hown : s.own = .removeDequeue left)
    (ha : ownStep s b₁ b₂ b₃ (.removeDequeue left) = some s') :
    Inv s' ∧ s'.aborted = s.aborted := by
  have hknows := h.knows
  have hlist := h.list
  rw [hown] at hknows
  have hsame : ∀ pausing, s.status ∈ (OwnPc.removeDequeue left).statuses pausing →
      s.status ∈ OwnPc.setRunning.statuses pausing := fun pausing hp => by
    cases pausing <;> exact hp
  cases hawaiters : s.awaiters with
  | nil =>
      cases left <;>
      · simp only [ownStep, hawaiters, Option.some.injEq] at ha
        subst ha
        exact ⟨h.goOwn hown rfl id hsame rfl hawaiters.symm rfl
          (fun _ => .inr hawaiters) ⟨rfl, rfl⟩ trivial, rfl⟩
  | cons node rest =>
      rw [hawaiters] at hknows hlist
      obtain ⟨left, rfl⟩ := Nat.exists_eq_succ_of_ne_zero (hknows nofun).ne'
      simp only [ownStep, hawaiters, Option.some.injEq] at ha
      subst ha
      obtain ⟨hnode, hrest⟩ := List.cons.inj (hlist.resolve_left nofun).1
      subst hrest
      refine ⟨h.moveOwn rfl id (fun pausing hp => ?_) (.inl rfl) ?_ hnode (.inl rfl), rfl⟩
      · rw [hown] at hp
        cases pausing <;> exact hp
      · rw [hawaiters, hown]
        rfl

theorem Inv.plainOwn {p : OwnPc} (h : Inv s) (hp : s.own = p) (hk : Keeps s s')
    (hsub : ∀ pausing, p.statuses pausing ⊆ s'.own.statuses pausing)
    (hlists : p.lists = true → s'.own.lists = true)
    (hnumbers : s'.own.adds = p.adds ∧ s'.own.takes = p.takes)
    (hknows : s'.own.knows s.awaiter s.awaiters) : Inv s' := by
  refine h.goOwn hp hk.canceller (fun hc => hk.cancelled.trans hc) (fun pausing hs => ?_)
    hk.awaiter hk.awaiters hk.awaitersCount (fun hl => .inl (hlists hl)) hnumbers hknows
  rw [hk.status]
  exact hsub pausing hs

theorem Inv.ownStep {b₁ b₂ b₃ : Bool} (h : Inv s)
    (ha : ownStep s b₁ b₂ b₃ s.own = some s') : Inv s' ∧ s'.aborted = s.aborted := by
  cases hown : s.own with
  | body | parked | finalSuspended =>
      rw [hown] at ha
      cases ha
  | addAwaiter =>
      rw [hown] at ha
      cases ha
      have hnil := h.awaiters_nil (by rw [hown]; rfl)
      refine ⟨h.moveOwn rfl id (fun pausing hp => ?_) (.inr ⟨by rw [hnil]; rfl, rfl⟩) ?_ trivial
        (.inl rfl), rfl⟩
      · rw [hown] at hp
        cases pausing <;> exact hp
      · rw [hnil, hown]
        rfl
  | addCount =>
      rw [hown] at ha
      cases ha
      refine ⟨h.moveOwn rfl id (fun pausing hp => ?_) ?_ ?_ trivial (.inl rfl), rfl⟩
      · rw [hown] at hp
        cases pausing <;> exact hp
      · exact h.list.imp_right fun hl => ⟨hl.1, rfl⟩
      · rw [hown]
        rfl
  | ready =>
      rw [hown] at ha
      cases ha
      refine ⟨h.plainOwn hown ⟨rfl, rfl, rfl, rfl, rfl, rfl⟩ (fun pausing => ?_) (fun _ => ?_)
        ?_ ?_, rfl⟩
      · cases pausing <;> split_ifs <;> simp [OwnPc.statuses]
      all_goals dsimp only; split_ifs
      · rfl
      · rfl
      · exact ⟨rfl, rfl⟩
      · exact ⟨rfl, rfl⟩
      · trivial
      · trivial
  | suspendRead =>
      rw [hown] at ha
      cases ha
      exact ⟨h.plainOwn hown ⟨rfl, rfl, rfl, rfl, rfl, rfl⟩ (fun pausing => by
        cases pausing <;> exact List.Subset.refl _)
        (fun _ => rfl) ⟨rfl, rfl⟩ trivial, rfl⟩
  | suspend isCancelled => exact h.suspend hown (hown ▸ ha)
  | register shouldSuspend =>
      rw [hown] at ha
      cases ha
      split_ifs
      · exact ⟨h.plainOwn hown ⟨rfl, rfl, rfl, rfl, rfl, rfl⟩ (fun pausing => by
        cases pausing <;> exact List.Subset.refl _)
          (fun _ => rfl) ⟨rfl, rfl⟩ trivial, rfl⟩
      · exact ⟨h.plainOwn hown ⟨rfl, rfl, rfl, rfl, rfl, rfl⟩ (fun pausing => by
        cases pausing <;> exact List.Subset.refl _)
          (fun _ => rfl) ⟨rfl, rfl⟩ trivial, rfl⟩
      · refine ⟨h.plainOwn hown ⟨rfl, rfl, rfl, rfl, rfl, rfl⟩ (fun pausing => ?_)
          (fun _ => rfl) ⟨rfl, rfl⟩ trivial, rfl⟩
        cases pausing <;> simp [OwnPc.statuses]
  | removeCount =>
      rw [hown] at ha
      cases ha
      refine ⟨h.plainOwn hown ⟨rfl, rfl, rfl, rfl, rfl, rfl⟩ (fun pausing => by
        cases pausing <;> exact List.Subset.refl _)
        (fun _ => rfl) ⟨rfl, rfl⟩ fun hne => ?_, rfl⟩
      have hle := h.length_le_count
      have hpos := List.length_pos_of_ne_nil hne
      rw [hown] at hle
      simp only [OwnPc.takes, OwnPc.adds] at hle
      omega
  | removeDequeue left => exact h.removeDequeue hown (hown ▸ ha)
  | removeListCount node left =>
      rw [hown] at ha
      cases ha
      have hknows := h.knows
      have hnil := h.awaiters_nil (by rw [hown]; rfl)
      have hle := h.length_le_count
      rw [hown] at hknows hle
      rw [if_pos (show node = s.awaiter from hknows)]
      refine ⟨h.moveOwn rfl id (fun pausing hp => ?_) (.inl hnil) ?_ trivial (.inl rfl), rfl⟩
      · rw [hown] at hp
        cases pausing <;> exact hp
      · simp only [hown, hnil, OwnPc.takes, OwnPc.adds, List.length_nil] at hle ⊢
        omega
  | removeEnqueue node left | removeEnqueueCount left =>
      have hknows := h.knows
      rw [hown] at hknows
      exact hknows.elim
  | setRunning => exact h.setRunning hown (hown ▸ ha)
  | spinPaused =>
      rw [hown] at ha
      cases ha
      refine ⟨h.goOwn hown rfl id (fun pausing hp => ?_) rfl rfl rfl
        (fun hl => absurd hl Bool.false_ne_true) ?_ ?_, rfl⟩
      · cases pausing <;> simp_all [OwnPc.statuses]
      all_goals dsimp only; split_ifs
      · exact ⟨rfl, rfl⟩
      · exact ⟨rfl, rfl⟩
      · trivial
      · trivial
  | setReturned | setCompleted | finalSuspend =>
      obtain ⟨pausing, hstatus⟩ := h.status
      rw [hown] at ha hstatus
      cases pausing with
      | true => cases hstatus
      | false =>
          have hs := List.mem_singleton.mp hstatus
          simp only [CoroutineCancel.ownStep, State.setStatus, hs, CoroutineStatus.setStatus,
            Option.some.injEq] at ha
          subst ha
          refine ⟨h.goOwn hown rfl id (fun pausing hp => ?_) rfl rfl rfl
            (fun hl => absurd hl Bool.false_ne_true) ⟨rfl, rfl⟩ trivial, rfl⟩
          cases pausing with
          | true => cases hp
          | false => exact List.mem_singleton.mpr rfl

/-- The invariant does not speak of the pool and of what the coroutine awaits. -/
theorem Inv.frame (h : Inv s) (waiting aborted : Bool) (queued schedules : ℕ) :
    Inv { s with
      waiting := waiting, queued := queued, schedules := schedules, aborted := aborted } :=
  ⟨h.unique, h.marked, h.resting, h.pausing, h.list, h.counted, h.counting, h.knows, h.hand⟩

section Cancellers

variable {i : Canceller} {q : CancelPc}

/-- Nobody but the canceller `i` is past the test of `m_cancelled`. -/
def Alone (s : State Canceller) (i : Canceller) : Prop :=
  ∀ j, j ≠ i → (s.canceller j).active = false

theorem Inv.alone (h : Inv s) (hi : (s.canceller i).active = true) : Alone s i := by
  intro j hj
  by_contra hn
  exact hj (h.unique j i (by simpa using hn) hi)

theorem Alone.status (ha : Alone s i) (h : Inv s) :
    s.status ∈ s.own.statuses (s.canceller i).isPausing := by
  cases hp : (s.canceller i).isPausing with
  | true => exact h.pausing i hp
  | false =>
      refine h.resting fun j => ?_
      by_cases hj : j = i
      · rw [hj, hp]
      · by_contra hn
        have := CancelPc.active_of_isPausing (q := s.canceller j) (by simpa using hn)
        rw [ha j hj] at this
        cases this

theorem Alone.count (ha : Alone s i) (h : Inv s) : s.awaitersCount + s.own.adds =
    s.awaiters.length + s.own.takes + (s.canceller i).counts.toNat := by
  cases hp : (s.canceller i).counts with
  | true => exact h.counting i hp
  | false =>
      refine h.counted fun j => ?_
      by_cases hj : j = i
      · rw [hj, hp]
      · by_contra hn
        have := CancelPc.active_of_isPausing
          (CancelPc.isPausing_of_counts (q := s.canceller j) (by simpa using hn))
        rw [ha j hj] at this
        cases this

variable [DecidableEq Canceller]

theorem Inv.moveCanceller (h : Inv s) (ha : Alone s i)
    (hcanceller : s'.canceller = Function.update s.canceller i q) (hown : s'.own = s.own)
    (hawaiter : s'.awaiter = s.awaiter) (hcancelled : s.cancelled = true → s'.cancelled = true)
    (hmarked : q.marked = true → s'.cancelled = true)
    (hstatus : s'.status ∈ s.own.statuses q.isPausing)
    (hcount : s'.awaitersCount + s.own.adds =
      s'.awaiters.length + s.own.takes + q.counts.toNat)
    (hlist : s'.awaiters = s.awaiters ∨ s'.awaiters = [])
    (hhand : ∀ a, q.awaiter = some a → a = s.awaiter) : Inv s' := by
  have hi : s'.canceller i = q := by rw [hcanceller, Function.update_self]
  have hj : ∀ j, j ≠ i → s'.canceller j = s.canceller j := fun j hj => by
    rw [hcanceller, Function.update_of_ne hj]
  have honly : ∀ j, (s'.canceller j).active = true → j = i := by
    intro j hactive
    by_contra hne
    rw [hj j hne, ha j hne] at hactive
    cases hactive
  refine ⟨fun j k hj hk => (honly j hj).trans (honly k hk).symm, ?_, ?_, ?_, ?_, ?_, ?_, ?_, ?_⟩
  · intro j hm
    by_cases hne : j = i
    · exact hmarked (by rw [← hi, ← hne, hm])
    · exact hcancelled (h.marked j (by rw [← hj j hne, hm]))
  · intro hp
    rw [hown]
    rw [← hi, hp i] at hstatus
    exact hstatus
  · intro j hp
    rw [honly j (CancelPc.active_of_isPausing hp), hi] at hp
    rw [hown]
    rw [hp] at hstatus
    exact hstatus
  · rw [hown, hawaiter]
    rcases hlist with he | he <;> rw [he]
    · exact h.list
    · exact .inl rfl
  · intro hc
    rw [← hi, hc i] at hcount
    rw [hown]
    exact hcount
  · intro j hc
    rw [honly j (CancelPc.active_of_isPausing (CancelPc.isPausing_of_counts hc)), hi] at hc
    rw [hc] at hcount
    rw [hown]
    exact hcount
  · rw [hown, hawaiter]
    rcases hlist with he | he <;> rw [he]
    · exact h.knows
    · have hknows := h.knows
      cases hp : s.own <;> rw [hp] at hknows <;>
        first | exact hknows | exact fun hn => absurd rfl hn
  · intro j a hh
    rw [hawaiter]
    by_cases hne : j = i
    · rw [hne, hi] at hh
      exact hhand a hh
    · rw [hj j hne] at hh
      exact h.hand j a hh

theorem Inv.quietCanceller (h : Inv s) (hi : (s.canceller i).active = false)
    (hcanceller : s'.canceller = Function.update s.canceller i q) (hq : q.active = false)
    (hmarked : q.marked = true → s.cancelled = true) (hown : s'.own = s.own)
    (hkeeps : Keeps { s with canceller := s'.canceller } s') : Inv s' := by
  have hall : ∀ {P : CancelPc → Prop}, (∀ p, P p → p.active = true) → ∀ j,
      P (s'.canceller j) ↔ P (s.canceller j) := by
    intro P hP j
    by_cases hj : j = i
    · rw [hj, hcanceller, Function.update_self]
      refine iff_of_false (fun hp => ?_) fun hp => ?_
      · rw [hP _ hp] at hq
        cases hq
      · rw [hP _ hp] at hi
        cases hi
    · rw [hcanceller, Function.update_of_ne hj]
  have hactive := hall (P := fun p => p.active = true) fun _ hp => hp
  have hpausing := hall (P := fun p => p.isPausing = true) fun _ => CancelPc.active_of_isPausing
  have hcounts := hall (P := fun p => p.counts = true) fun _ hp =>
    CancelPc.active_of_isPausing (CancelPc.isPausing_of_counts hp)
  refine ⟨fun j k hj hk => h.unique j k ((hactive j).mp hj) ((hactive k).mp hk), fun j hm => ?_,
    fun hp => ?_, fun j hp => ?_, ?_, fun hc => ?_, fun j hc => ?_, ?_, fun j a ha => ?_⟩
  · rw [hkeeps.cancelled]
    rcases agent_cases (Q := fun p => p.marked = true) hcanceller hm with ⟨-, hm⟩ | ⟨-, hm⟩
    · exact hmarked hm
    · exact h.marked j hm
  · rw [hown, hkeeps.status]
    refine h.resting fun j => ?_
    rw [← Bool.not_eq_true, ← hpausing j, hp j]
    exact Bool.false_ne_true
  · rw [hown, hkeeps.status]
    exact h.pausing j ((hpausing j).mp hp)
  · rw [hown, hkeeps.awaiters, hkeeps.awaiter]
    exact h.list
  · rw [hown, hkeeps.awaiters, hkeeps.awaitersCount]
    refine h.counted fun j => ?_
    rw [← Bool.not_eq_true, ← hcounts j, hc j]
    exact Bool.false_ne_true
  · rw [hown, hkeeps.awaiters, hkeeps.awaitersCount]
    exact h.counting j ((hcounts j).mp hc)
  · rw [hown, hkeeps.awaiters, hkeeps.awaiter]
    exact h.knows
  · rw [hkeeps.awaiter]
    refine h.hand j a ((hall (P := fun p => p.awaiter = some a) (fun _ hp => ?_) j).mp ha)
    exact CancelPc.active_of_isPausing (CancelPc.isPausing_of_awaiter hp)

/-- Two calls of `cancel` cannot both find `m_cancelled` false. -/
def Serial (s : State Canceller) : Action Canceller → Prop
  | .canceller i _ _ => s.canceller i = .check → s.cancelled = false →
      ∀ j, s.canceller j ≠ .mark
  | _ => True

omit [DecidableEq Canceller] in
theorem Inv.alone_of_serial (h : Inv s) (hcancelled : s.cancelled = false)
    (hmark : ∀ j, s.canceller j ≠ .mark) : Alone s i := by
  intro j _
  by_contra hn
  have : (s.canceller j).marked = true := by
    have hne := hmark j
    revert hn hne
    cases s.canceller j <;> simp [CancelPc.active, CancelPc.marked]
  have := h.marked j this
  rw [hcancelled] at this
  cases this

theorem Inv.goCanceller (h : Inv s) (hi : (s.canceller i).active = true)
    (hmarked : q.marked = true → s.cancelled = true)
    (hpausing : q.isPausing = (s.canceller i).isPausing)
    (hcounts : q.counts = (s.canceller i).counts)
    (hhand : ∀ a, q.awaiter = some a → a = s.awaiter) : Inv (s.goCanceller i q) := by
  have ha := h.alone hi
  refine h.moveCanceller ha rfl rfl rfl id hmarked ?_ ?_ (.inl rfl) hhand
  · rw [hpausing]
    exact ha.status h
  · rw [hcounts]
    exact ha.count h

theorem Inv.check (h : Inv s) (hi : s.canceller i = .check)
    (hserial : s.cancelled = false → ∀ j, s.canceller j ≠ .mark) :
    Inv (s.goCanceller i (if s.cancelled = true then .returned else .mark)) := by
  split_ifs with hcancelled
  · exact h.quietCanceller (by rw [hi]; rfl) rfl rfl (fun _ => hcancelled) rfl
      ⟨rfl, rfl, rfl, rfl, rfl, rfl⟩
  · have hcancelled : s.cancelled = false := by simpa using hcancelled
    have ha := h.alone_of_serial (i := i) hcancelled (hserial hcancelled)
    have hstatus := ha.status h
    have hcount := ha.count h
    rw [hi] at hstatus hcount
    exact h.moveCanceller ha rfl rfl rfl id nofun hstatus hcount (.inl rfl) nofun

theorem Inv.pause (h : Inv s) (hi : s.canceller i = .pause) :
    Inv (s.setStatus false .pauseOnRunning fun prevStatus s =>
      if prevStatus = .suspended then
        { s.goCanceller i (.dequeue false) with pauses := s.pauses + 1 }
      else s.goCanceller i .returned) := by
  have ha := h.alone (i := i) (by rw [hi]; rfl)
  have hmarked := h.marked i (by rw [hi]; rfl)
  have hstatus := ha.status h
  have hcount := ha.count h
  rw [hi] at hstatus hcount
  rcases OwnPc.pause_cases hstatus with ⟨hs, hp⟩ | ⟨hs, hset⟩ | hset
  · rw [State.setStatus_pauseOnRunning hs, if_pos rfl]
    exact h.moveCanceller ha rfl rfl rfl id (fun _ => hmarked) hp hcount (.inl rfl) nofun
  · rw [State.setStatus_eq hset, if_neg hs]
    exact h.moveCanceller ha rfl rfl rfl id (fun _ => hmarked) hstatus hcount (.inl rfl) nofun
  · rw [State.setStatus, hset]
    exact h.frame s.waiting true s.queued s.schedules

/-- The awaiter that a canceller dequeues is the one of the current suspension. -/
theorem Inv.dequeue {found : Bool} (h : Inv s) (hi : s.canceller i = .dequeue found) :
    Inv (match s.awaiters with
      | [] => s.goCanceller i (.checkPaused found)
      | awaiter :: rest =>
        { s.goCanceller i (.listCount awaiter found) with awaiters := rest }) := by
  have hactive : (s.canceller i).active = true := by rw [hi]; rfl
  have hmarked := h.marked i (by rw [hi]; rfl)
  have hlist := h.list
  cases hawaiters : s.awaiters with
  | nil =>
      exact h.goCanceller hactive (fun _ => hmarked) (by rw [hi]; rfl) (by rw [hi]; rfl) nofun
  | cons awaiter rest =>
      have ha := h.alone hactive
      have hstatus := ha.status h
      have hcount := ha.count h
      rw [hi, hawaiters] at hcount
      rw [hi] at hstatus
      rw [hawaiters] at hlist
      obtain ⟨hawaiter, hrest⟩ := List.cons.inj (hlist.resolve_left nofun).1
      refine h.moveCanceller ha rfl rfl rfl id (fun _ => hmarked) hstatus ?_ (.inr hrest)
        fun a ha => (Option.some.inj ha).symm.trans hawaiter
      simp only [State.goCanceller, List.length_cons, CancelPc.counts, Bool.toNat_false,
        Bool.toNat_true] at hcount ⊢
      omega

theorem Inv.listCount {awaiter : Awaiter} {found : Bool} (h : Inv s)
    (hi : s.canceller i = .listCount awaiter found) :
    Inv { s.goCanceller i (.maybeBlocked awaiter found) with
      awaitersCount := s.awaitersCount - 1 } := by
  have ha := h.alone (i := i) (by rw [hi]; rfl)
  have hmarked := h.marked i (by rw [hi]; rfl)
  have hstatus := ha.status h
  have hcount := ha.count h
  have hhand := h.hand i
  rw [hi] at hstatus hcount hhand
  have hadds := OwnPc.adds_of_pausing hstatus
  refine h.moveCanceller ha rfl rfl rfl id (fun _ => hmarked) hstatus ?_ (.inl rfl) hhand
  simp only [State.goCanceller, CancelPc.counts, Bool.toNat_false, Bool.toNat_true] at hcount ⊢
  omega

theorem Inv.resume (h : Inv s) (hi : s.canceller i = .resume) :
    Inv (s.setStatus false .resumed fun _ s => s.goCanceller i .returned) := by
  have ha := h.alone (i := i) (by rw [hi]; rfl)
  have hmarked := h.marked i (by rw [hi]; rfl)
  have hstatus := ha.status h
  have hcount := ha.count h
  rw [hi] at hstatus hcount
  obtain ⟨new, hset, hnew⟩ := OwnPc.resume_cases hstatus
  rw [State.setStatus_eq hset]
  exact h.moveCanceller ha rfl rfl rfl id (fun _ => hmarked) hnew hcount (.inl rfl) nofun

theorem Inv.cancelStep {b₁ b₂ : Bool} (h : Inv s)
    (hserial : s.canceller i = .check → s.cancelled = false → ∀ j, s.canceller j ≠ .mark)
    (ha : cancelStep s i b₁ b₂ (s.canceller i) = some s') : Inv s' := by
  have hmarked := h.marked i
  have hhand := h.hand i
  cases hi : s.canceller i with
  | idle | returned =>
      rw [hi] at ha
      cases ha
  | check =>
      rw [hi] at ha
      cases ha
      exact h.check hi (hserial hi)
  | mark =>
      rw [hi] at ha
      cases ha
      have ha := h.alone (i := i) (by rw [hi]; rfl)
      have hstatus := ha.status h
      have hcount := ha.count h
      rw [hi] at hstatus hcount
      exact h.moveCanceller ha rfl rfl rfl (fun _ => rfl) (fun _ => rfl) hstatus hcount (.inl rfl)
        nofun
  | status | isEmpty | maybeBlocked awaiter found | checkPaused found =>
      rw [hi] at ha hmarked hhand
      cases ha
      refine h.goCanceller (by rw [hi]; rfl) (fun _ => hmarked rfl) ?_ ?_ fun a ha => ?_
      · rw [hi]
        split_ifs <;> rfl
      · rw [hi]
        split_ifs <;> rfl
      · split_ifs at ha <;> first | exact hhand a ha | cases ha
  | pause =>
      rw [hi] at ha
      cases ha
      exact h.pause hi
  | dequeue found =>
      rw [hi] at ha
      cases ha
      exact h.dequeue hi
  | listCount awaiter found =>
      rw [hi] at ha
      cases ha
      exact h.listCount hi
  | cancelAwaiter awaiter found =>
      have hgo : ∀ found, Inv (s.goCanceller i (.dequeue found)) ∧
          Inv (s.goCanceller i (.schedule found)) := fun found => by
        rw [hi] at hmarked
        constructor <;> exact h.goCanceller (by rw [hi]; rfl) (fun _ => hmarked rfl)
          (by rw [hi]; rfl) (by rw [hi]; rfl) nofun
      rw [hi] at ha
      simp only [CoroutineCancel.cancelStep] at ha
      split_ifs at ha <;> cases ha
      · exact (hgo found).2.frame false s.aborted s.queued s.schedules
      · exact (hgo _).1
  | schedule found =>
      rw [hi] at ha hmarked
      cases ha
      have := h.goCanceller (q := .dequeue found) (i := i) (by rw [hi]; rfl)
        (fun _ => hmarked rfl) (by rw [hi]; rfl) (by rw [hi]; rfl) nofun
      exact this.frame s.waiting s.aborted (s.queued + 1) (s.schedules + 1)
  | resume =>
      rw [hi] at ha
      cases ha
      exact h.resume hi

theorem Inv.start (Canceller : Type*) : Inv (initial : State Canceller) where
  unique _ _ := nofun
  marked _ := nofun
  resting _ := List.mem_singleton.mpr rfl
  pausing _ := nofun
  list := .inl rfl
  counted _ := rfl
  counting _ := nofun
  knows := trivial
  hand _ _ := nofun

theorem Inv.start_suspendedOn (Canceller : Type*) (kind : AwaiterKind) :
    Inv (suspendedOn kind : State Canceller) where
  unique _ _ := nofun
  marked _ := nofun
  resting _ := List.mem_singleton.mpr rfl
  pausing _ := nofun
  list := .inr ⟨rfl, rfl⟩
  counted _ := rfl
  counting _ := nofun
  knows := trivial
  hand _ _ := nofun

omit [DecidableEq Canceller] in
theorem Inv.await (h : Inv s) (hown : s.own = .body) (awaiter : Awaiter) :
    Inv { s with awaiter := awaiter, own := .addAwaiter } := by
  have hnil := h.awaiters_nil (by rw [hown]; rfl)
  refine h.moveOwn rfl id (fun pausing hp => ?_) (.inl hnil) ?_ trivial (.inr fun i => ?_)
  · rw [hown] at hp
    cases pausing <;> exact hp
  · rw [hown]
    rfl
  · by_contra hn
    have hp := h.pausing i (by simpa using hn)
    rw [hown] at hp
    cases hp

theorem Inv.step {a : Action Canceller} (h : Inv s) (hserial : Serial s a)
    (ha : step s a = some s') : Inv s' := by
  unfold CoroutineCancel.step at ha
  obtain ⟨-, ha⟩ := Option.ite_none_left_eq_some.mp ha
  cases a with
  | await kind =>
      obtain ⟨⟨hown, -⟩, ha⟩ := Option.ite_none_right_eq_some.mp ha
      obtain rfl := Option.some.inj ha
      split_ifs
      · exact h
      · exact h.await hown _
  | finish =>
      obtain ⟨hown, ha⟩ := Option.ite_none_right_eq_some.mp ha
      obtain rfl := Option.some.inj ha
      exact h.plainOwn hown ⟨rfl, rfl, rfl, rfl, rfl, rfl⟩
        (fun pausing => by cases pausing <;> exact List.Subset.refl _) nofun ⟨rfl, rfl⟩ trivial
  | own b₁ b₂ b₃ => exact (h.ownStep ha).1
  | source cancels =>
      obtain ⟨hwaiting, ha⟩ := Option.ite_none_right_eq_some.mp ha
      obtain rfl := Option.some.inj ha
      have : Inv { s with cancelled := s.cancelled || cancels } := h.moveOwn rfl
        (fun hc => by rw [hc]; rfl) (fun _ hp => hp) h.list rfl h.knows (.inl rfl)
      exact this.frame false s.aborted (s.queued + 1) (s.schedules + 1)
  | resume =>
      obtain ⟨⟨hown, -⟩, ha⟩ := Option.ite_none_right_eq_some.mp ha
      obtain rfl := Option.some.inj ha
      refine h.plainOwn hown ⟨rfl, rfl, rfl, rfl, rfl, rfl⟩ (fun pausing => ?_) (fun _ => rfl)
        ⟨rfl, rfl⟩ trivial
      cases pausing <;> simp [OwnPc.statuses]
  | cancel i =>
      obtain ⟨hidle, ha⟩ := Option.ite_none_right_eq_some.mp ha
      obtain rfl := Option.some.inj ha
      exact h.quietCanceller (by rw [hidle]; rfl) rfl rfl nofun rfl ⟨rfl, rfl, rfl, rfl, rfl, rfl⟩
  | canceller i b₁ b₂ => exact h.cancelStep hserial ha

end Cancellers

/-- From the change into `PauseOnRunning` to the request for `Resumed` the coroutine stays
in the suspension that it was paused in, the awaiter in the hand of `cancel` is that of
this suspension, and the request for `Resumed` finds what it asserts. -/
theorem cancel_holds_live_awaiter {s : State Unit} (hs : (system Unit).Reach s) (i : Unit) :
    ((s.canceller i).isPausing = true → s.own.isSuspended = true ∧
      (s.status = .pauseOnRunning ∨ s.status = .paused)) ∧
    ∀ awaiter, (s.canceller i).awaiter = some awaiter →
      awaiter = s.awaiter ∧ s.own.isSuspended = true := by
  have h : Inv s := by
    refine hs.invariant (I := Inv) ?_ fun s a s' h ha => h.step ?_ ha
    · rintro s rfl
      exact Inv.start Unit
    · cases a with
      | canceller i b₁ b₂ =>
          intro hcheck _ j hmark
          rw [Subsingleton.elim j i, hcheck] at hmark
          cases hmark
      | _ => trivial
  have hpausing := fun hp => OwnPc.isSuspended_of_pausing (h.pausing i hp)
  exact ⟨hpausing, fun awaiter ha =>
    ⟨h.hand i awaiter ha, (hpausing (CancelPc.isPausing_of_awaiter ha)).1⟩⟩

theorem cancel_holds_live_awaiter_of_event : ∃ s : State Unit, (system Unit).Reach s ∧
    s.canceller () = .cancelAwaiter ⟨1, .event⟩ false ∧ s.own = .setRunning ∧
    ⟨1, .event⟩ = s.awaiter := by
  obtain ⟨s, hs, hcanceller, hown⟩ := StepSystem.Reach.exists_of_exec (M := system Unit)
    (P := fun s => s.canceller () = .cancelAwaiter ⟨1, .event⟩ false ∧ s.own = .setRunning)
    (.start rfl)
    (.await .event :: List.replicate 6 (.own true true false) ++ .cancel () ::
      List.replicate 6 (.canceller () true false) ++ [.source false, .resume] ++
      List.replicate 2 (.own true true false) ++ List.replicate 2 (.canceller () true false))
    (by decide)
  exact ⟨s, hs, hcanceller, hown,
    ((cancel_holds_live_awaiter hs ()).2 _ (by rw [hcanceller]; rfl)).1⟩

end LevelzAsync.CoroutineCancel
