import LevelzAsync.EventWait

/-!
# Where a waiting coroutine is

A coroutine whose `await_suspend` has put it into the wait list is in exactly one
place: in the list, in the hands of a `remove` that rotates the list, or
scheduled. While it is in the list, a `cancel` of it that has come to its
`remove` has more rounds left than there are nodes ahead, as long as that held
whenever the node was put into the list.
-/

namespace LevelzAsync.EventWait

open CoroutineStatus

variable {Co : Type*}

namespace WaitPc

def isEntering : WaitPc → Bool
  | onReady | readyCancelled | suspendCancelled | suspend _ => true
  | _ => false

def isEnqueued : WaitPc → Bool
  | countUp | setWaitListed | suspended => true
  | _ => false

theorem not_isEntering {p : WaitPc} (h : p.isEnqueued = true) :
    p.isEntering = false ∧ p ≠ .onReady := by
  cases p <;> simp_all [isEnqueued, isEntering]

end WaitPc

namespace CancelPc

def isEarly : CancelPc Co → Bool
  | idle | isCancelled | setCancelled => true
  | _ => false

/-- The call has not seen the status `Suspended`. -/
def isOutside : CancelPc Co → Bool
  | idle | isCancelled | setCancelled | status | returned => true
  | _ => false

/-- The call has not changed the status yet. -/
def isBeforeTake : CancelPc Co → Bool
  | idle | isCancelled | setCancelled | status | empty | pause => true
  | _ => false

end CancelPc

/-- What holds of each coroutine with its awaiter and its cancellation. -/
structure Waiter.Ok (w : Waiter Co) : Prop where
  cancelled : w.cancelled = !w.cancel.isEarly
  scheduled : 0 < w.schedules → w.cancelled = true ∧ w.wait.isEnqueued = true
  notSuspended : w.wait = .notSuspended → w.cancelled = true
  seen : w.wait = .suspend true → w.cancelled = true
  resumed : w.resume ≠ .idle → 0 < w.schedules ∨ w.wait = .notSuspended
  error : ∀ e, w.resume = .resumed e → e = true
  entering : w.wait.isEntering = true → w.status = .running ∧ w.cancel.isOutside = true
  listed : w.wait ≠ .onReady → w.resume = .idle → w.cancel.isBeforeTake = true →
    w.awaiterListed = true
  waiting : w.wait.isEntering = false → w.resume = .idle → w.cancel.isBeforeTake = true →
    w.status = .suspended
  blocked : w.wait = .enqueue ∨ w.wait.isEnqueued = true → w.maybeBlocked = true

section Local

variable {w : Waiter Co} {p : WaitPc} {r : ResumePc} {q : CancelPc Co}

theorem Waiter.Ok.resume_idle (hw : w.Ok) (hs : w.schedules = 0) (hp : w.wait ≠ .notSuspended) :
    w.resume = .idle := by
  by_contra h
  rcases hw.resumed h with h | h
  · omega
  · exact hp h

theorem Waiter.Ok.idle_of_isEntering (hw : w.Ok) (hp : w.wait.isEntering = true) :
    w.schedules = 0 ∧ w.resume = .idle := by
  have hs : w.schedules = 0 := by
    by_contra h
    have := WaitPc.not_isEntering (hw.scheduled (Nat.pos_of_ne_zero h)).2
    simp [hp] at this
  refine ⟨hs, hw.resume_idle hs ?_⟩
  intro h
  rw [h] at hp
  cases hp

theorem Waiter.Ok.enter {listed : Bool} (hw : w.Ok) (hold : w.wait.isEntering = true)
    (hp : p.isEntering = true) (hseen : p = .suspend true → w.cancelled = true)
    (hlisted : listed = true ∨ w.wait ≠ .onReady ∧ listed = w.awaiterListed) :
    Ok { w with awaiterListed := listed, wait := p } := by
  obtain ⟨hs, hidle⟩ := hw.idle_of_isEntering hold
  have hnot : p ≠ .notSuspended ∧ ¬(p = .enqueue ∨ p.isEnqueued = true) := by
    cases p <;> simp_all [WaitPc.isEntering, WaitPc.isEnqueued]
  exact
    { cancelled := hw.cancelled
      scheduled := fun h => absurd hs h.ne'
      notSuspended := fun h => absurd h hnot.1
      seen := hseen
      resumed := fun h => absurd hidle h
      error := hw.error
      entering := fun _ => hw.entering hold
      listed := fun _ hr hq => hlisted.elim id fun h => h.2 ▸ hw.listed h.1 hr hq
      waiting := fun h => by
        rw [hp] at h
        cases h
      blocked := fun h => absurd h hnot.2 }

/-- The awaiter does not suspend a coroutine that was cancelled. -/
theorem Waiter.Ok.goOn {status : CoroutineStatus} (hw : w.Ok) (hold : w.wait.isEntering = true)
    (hc : w.cancelled = true) : Ok { w.goOn with status := status } := by
  obtain ⟨hs, _⟩ := hw.idle_of_isEntering hold
  exact
    { cancelled := hw.cancelled
      scheduled := fun h => absurd hs h.ne'
      notSuspended := fun _ => hc
      seen := nofun
      resumed := fun _ => .inr rfl
      error := nofun
      entering := nofun
      listed := nofun
      waiting := nofun
      blocked := fun h => by rcases h with h | h <;> cases h }

theorem Waiter.Ok.suspend {status : CoroutineStatus} (hw : w.Ok)
    (hold : w.wait.isEntering = true) (hready : w.wait ≠ .onReady) (hstatus : status = .suspended)
    (hp : p = .isSignaled ∨ p = .setMaybeBlocked) :
    Ok { w with status := status, wait := p } := by
  obtain ⟨hs, hidle⟩ := hw.idle_of_isEntering hold
  have hnot : p ≠ .notSuspended ∧ p ≠ .suspend true ∧ p.isEntering = false ∧
      ¬(p = .enqueue ∨ p.isEnqueued = true) := by
    rcases hp with rfl | rfl <;> simp [WaitPc.isEntering, WaitPc.isEnqueued]
  exact
    { cancelled := hw.cancelled
      scheduled := fun h => absurd hs h.ne'
      notSuspended := fun h => absurd h hnot.1
      seen := fun h => absurd h hnot.2.1
      resumed := fun h => absurd hidle h
      error := hw.error
      entering := fun h => by
        rw [hnot.2.2.1] at h
        cases h
      listed := fun _ => hw.listed hready
      waiting := fun _ _ _ => hstatus
      blocked := fun h => absurd h hnot.2.2.2 }

theorem Waiter.Ok.goWait {maybeBlocked : Bool} (hw : w.Ok) (hold : w.wait.isEntering = false)
    (hne : w.wait ≠ .notSuspended) (hp : p.isEntering = false) (hpne : p ≠ .notSuspended)
    (hs : 0 < w.schedules → p.isEnqueued = true)
    (hblocked : p = .enqueue ∨ p.isEnqueued = true → maybeBlocked = true) :
    Ok { w with maybeBlocked := maybeBlocked, wait := p } := by
  have hready : w.wait ≠ .onReady := by
    rintro h
    rw [h] at hold
    cases hold
  exact
    { cancelled := hw.cancelled
      scheduled := fun h => ⟨(hw.scheduled h).1, hs h⟩
      notSuspended := fun h => absurd h hpne
      seen := by
        rintro rfl
        cases hp
      resumed := fun h => .inl ((hw.resumed h).resolve_right hne)
      error := hw.error
      entering := fun h => by
        rw [hp] at h
        cases h
      listed := fun _ => hw.listed hready
      waiting := fun _ => hw.waiting hold
      blocked := hblocked }

theorem Waiter.Ok.goResume {status : CoroutineStatus} {listed : Bool} (hw : w.Ok)
    (hold : 0 < w.schedules ∨ w.wait = .notSuspended) (hr : r ≠ .idle)
    (herror : ∀ e, r = .resumed e → e = true) :
    Ok { w with status := status, awaiterListed := listed, resume := r } := by
  have hp : w.wait.isEntering = false := by
    rcases hold with h | h
    · exact (WaitPc.not_isEntering (hw.scheduled h).2).1
    · rw [h]
      rfl
  exact
    { hw with
      resumed := fun _ => hold
      error := herror
      entering := fun h => by
        rw [hp] at h
        cases h
      listed := fun _ h => absurd h hr
      waiting := fun _ h => absurd h hr }

theorem onReady_shouldNotSuspend {kind : AwaiterKind} {same chain cancelled : Bool}
    (h : kind.onReady same chain .running false cancelled = .shouldNotSuspend) :
    cancelled = true := by
  unfold AwaiterKind.onReady at h
  split_ifs at h <;> simp_all

theorem onSuspend_shouldNotSuspend {kind : AwaiterKind} {same chain cancelled : Bool}
    (h : kind.onSuspend same chain .running false cancelled = .shouldNotSuspend) :
    cancelled = true := by
  unfold AwaiterKind.onSuspend at h
  split_ifs at h <;> simp_all

theorem Waiter.Ok.cancelled_of_resumed (hw : w.Ok) (h : w.resume ≠ .idle) :
    w.cancelled = true :=
  (hw.resumed h).elim (fun h => (hw.scheduled h).1) hw.notSuspended

theorem Waiter.Ok.goCancel (hw : w.Ok) (hearly : q.isEarly = w.cancel.isEarly)
    (hout : w.status = .running → w.cancel.isOutside = true → q.isOutside = true)
    (hbefore : q.isBeforeTake = true → w.cancel.isBeforeTake = true) :
    Ok { w with cancel := q } :=
  { hw with
    cancelled := by rw [hw.cancelled, ← hearly]
    entering := fun h => ⟨(hw.entering h).1, hout (hw.entering h).1 (hw.entering h).2⟩
    listed := fun h hr hq => hw.listed h hr (hbefore hq)
    waiting := fun h hr hq => hw.waiting h hr (hbefore hq) }

theorem Waiter.Ok.setCancelled (hw : w.Ok) (hq : w.cancel = .setCancelled) :
    Ok { w with cancelled := true, cancel := (.status : CancelPc Co) } :=
  have hbefore : w.cancel.isBeforeTake = true := by rw [hq]; rfl
  { hw with
    cancelled := rfl
    scheduled := fun h => ⟨rfl, (hw.scheduled h).2⟩
    notSuspended := fun _ => rfl
    seen := fun _ => rfl
    entering := fun h => ⟨(hw.entering h).1, rfl⟩
    listed := fun h hr _ => hw.listed h hr hbefore
    waiting := fun h hr _ => hw.waiting h hr hbefore }

/-- A step of `cancel` after it has seen the status `Suspended`. -/
theorem Waiter.Ok.goCancelLate {status : CoroutineStatus} {listed : Bool} {schedules : ℕ}
    (hw : w.Ok) (hold : w.cancel.isEarly = false)
    (hout : w.wait.isEntering = true → status = .running ∧ q.isOutside = true)
    (hearly : q.isEarly = false) (hbefore : q.isBeforeTake = false)
    (hs : w.schedules ≤ schedules) (henqueued : 0 < schedules → w.wait.isEnqueued = true) :
    Ok { w with status := status, awaiterListed := listed, cancel := q, schedules := schedules } :=
  have hc : w.cancelled = true := by rw [hw.cancelled, hold]; rfl
  { hw with
    cancelled := by rw [hc, hearly]; rfl
    scheduled := fun h => ⟨hc, henqueued h⟩
    resumed := fun h => (hw.resumed h).imp_left fun h => h.trans_le hs
    entering := hout
    listed := fun _ _ h => by rw [hbefore] at h; cases h
    waiting := fun _ _ h => by rw [hbefore] at h; cases h }

end Local

def CancelPc.isScheduling : CancelPc Co → Bool
  | .schedule _ => true
  | _ => false

/-- Whether the cancellation of the coroutine has not come to its `remove`, or
has more rounds left in it than there are nodes ahead. -/
def Waiter.reaches (w : Waiter Co) (ahead : ℕ) : Bool :=
  match w.cancel with
  | .removeDequeue _ left | .removeCountDown _ left _ | .removeEnqueue _ left _
  | .removeCountUp _ left => ahead < left
  | .takeAwaiter _ => w.awaiterListed
  | .schedule _ | .checkPaused _ | .resume | .returned => false
  | _ => true

theorem Waiter.reaches_mono {w : Waiter Co} {i j : ℕ} (hij : i ≤ j) (h : w.reaches j = true) :
    w.reaches i = true := by
  unfold reaches at h ⊢
  split <;> simp_all <;> omega

theorem Waiter.reaches_congr {w w' : Waiter Co} {i : ℕ} (hcancel : w'.cancel = w.cancel)
    (hlisted : w.awaiterListed = true → w'.awaiterListed = true) (h : w.reaches i = true) :
    w'.reaches i = true := by
  unfold reaches at h ⊢
  rw [hcancel]
  cases hq : w.cancel <;> simp_all

variable [DecidableEq Co]

def CancelPc.holds (c : Co) : CancelPc Co → ℕ
  | .removeCountDown _ _ node | .removeEnqueue _ _ node => if node = c then 1 else 0
  | _ => 0

/-- How often the coroutine was scheduled, or is about to be. -/
def Waiter.releases (w : Waiter Co) : ℕ := w.schedules + w.cancel.isScheduling.toNat

/-- Whenever a node is put into the list, by its own `await_suspend` or back by a
`remove`, and whenever a `remove` of a listed node begins, the coroutine's
cancellation has not gone past it. -/
def inTime (s : State Co) : Action Co → Bool
  | .wait c _ _ =>
      match (s.co c).wait with
      | .enqueue => (s.co c).reaches s.waitQueue.length
      | _ => true
  | .canceller c =>
      match (s.co c).cancel with
      | .removeEnqueue _ _ node => (s.co node).reaches s.waitQueue.length
      | .removeCount _ =>
          c ∉ s.waitQueue ∨ s.waitQueue.idxOf c < (2 * s.count).toNat
      | _ => true
  | _ => true

variable [Fintype Co]

structure Inv (s : State Co) : Prop where
  ok : ∀ c, (s.co c).Ok
  node : ∀ c found left x, (s.co c).cancel = .removeEnqueue found left x → x ≠ c
  tokens : ∀ c, s.waitQueue.count c + ∑ d, (s.co d).cancel.holds c + (s.co c).releases =
    (s.co c).wait.isEnqueued.toNat
  reach : ∀ c ∈ s.waitQueue, (s.co c).reaches (s.waitQueue.idxOf c) = true

/-- What one step of a coroutine or of its cancellation changes. -/
structure Moves (s s' : State Co) (c : Co) (w : Waiter Co) : Prop where
  co : s'.co = Function.update s.co c w
  ok : w.Ok
  node : ∀ found left x, w.cancel = .removeEnqueue found left x → x ≠ c
  tokens : s'.waitQueue.count c + w.cancel.holds c + w.releases +
      (s.co c).wait.isEnqueued.toNat =
    s.waitQueue.count c + (s.co c).cancel.holds c + (s.co c).releases + w.wait.isEnqueued.toNat
  others : ∀ d ≠ c, s'.waitQueue.count d + w.cancel.holds d =
    s.waitQueue.count d + (s.co c).cancel.holds d
  reach : c ∈ s'.waitQueue → w.reaches (s'.waitQueue.idxOf c) = true
  reachOthers : ∀ d ≠ c, d ∈ s'.waitQueue → (s.co d).reaches (s'.waitQueue.idxOf d) = true

section Steps

variable {s s' : State Co} {c d : Co} {w : Waiter Co} {q : CancelPc Co}

/-- A coroutine in the list is nowhere else. -/
theorem Inv.of_mem (hi : Inv s) (hc : c ∈ s.waitQueue) :
    s.waitQueue.count c = 1 ∧ (∀ d, (s.co d).cancel.holds c = 0) ∧ (s.co c).releases = 0 ∧
      (s.co c).wait.isEnqueued = true ∧ (s.co c).resume = .idle := by
  have htokens := hi.tokens c
  have hle := Bool.toNat_le (s.co c).wait.isEnqueued
  have hpos : 0 < s.waitQueue.count c := List.count_pos_iff.mpr hc
  have henqueued : (s.co c).wait.isEnqueued = true := by
    cases h : (s.co c).wait.isEnqueued
    · simp only [h, Bool.toNat_false] at htokens
      omega
    · rfl
  have hreleases : (s.co c).releases = 0 := by omega
  refine ⟨by omega, fun d => ?_, hreleases, henqueued, ?_⟩
  · have := le_sum_tally s.co (fun w => w.cancel.holds c) d
    omega
  · refine (hi.ok c).resume_idle (by rw [Waiter.releases] at hreleases; omega) ?_
    intro h
    rw [h] at henqueued
    cases henqueued

theorem Inv.step_of_moves (hi : Inv s) (hm : Moves s s' c w) : Inv s' := by
  have hself : s'.co c = w := by rw [hm.co, Function.update_self]
  have hother : ∀ d, d ≠ c → s'.co d = s.co d := fun d hd => by
    rw [hm.co, Function.update_of_ne hd]
  refine
    { ok := fun d => ?_
      node := fun d found left x h => ?_
      tokens := fun d => ?_
      reach := fun d hd => ?_ }
  · by_cases hd : d = c
    · subst hd
      exact hself ▸ hm.ok
    · exact hother d hd ▸ hi.ok d
  · by_cases hd : d = c
    · subst hd
      exact hm.node found left x (hself ▸ h)
    · exact hi.node d found left x (hother d hd ▸ h)
  · have hsum := sum_update_tally s.co (fun w => w.cancel.holds d) c w
    have ht := hi.tokens d
    rw [← hm.co] at hsum
    by_cases hd : d = c
    · subst hd
      have hown := hm.tokens
      rw [hself]
      omega
    · have hown := hm.others d hd
      rw [hother d hd]
      omega
  · by_cases hdc : d = c
    · subst hdc
      exact hself ▸ hm.reach hd
    · exact hother d hdc ▸ hm.reachOthers d hdc hd

theorem Inv.stay (hi : Inv s) {count : UInt64} (hok : w.Ok)
    (hnode : ∀ found left x, w.cancel = .removeEnqueue found left x → x ≠ c)
    (hholds : ∀ d, w.cancel.holds d = (s.co c).cancel.holds d)
    (hreleases : w.releases = (s.co c).releases)
    (hwait : w.wait.isEnqueued = (s.co c).wait.isEnqueued)
    (hreach : c ∈ s.waitQueue → (s.co c).reaches (s.waitQueue.idxOf c) = true →
      w.reaches (s.waitQueue.idxOf c) = true) :
    Moves s { s.set c w with count := count } c w where
  co := rfl
  ok := hok
  node := hnode
  tokens := by
    rw [hholds, hreleases, hwait]
    rfl
  others := fun d _ => by
    rw [hholds]
    rfl
  reach := fun h => hreach h (hi.reach c h)
  reachOthers := fun d _ hd => hi.reach d hd

theorem Inv.stayWaiting (hi : Inv s) {count : UInt64} (hok : w.Ok)
    (hcancel : w.cancel = (s.co c).cancel) (hs : w.schedules = (s.co c).schedules)
    (hwait : w.wait.isEnqueued = (s.co c).wait.isEnqueued)
    (hlisted : c ∈ s.waitQueue → (s.co c).awaiterListed = true → w.awaiterListed = true) :
    Moves s { s.set c w with count := count } c w := by
  refine hi.stay hok (hcancel ▸ hi.node c) (fun d => by rw [hcancel]) ?_ hwait
    fun hc h => Waiter.reaches_congr hcancel (hlisted hc) h
  rw [Waiter.releases, hs, hcancel]
  rfl

theorem Inv.enqueue (hi : Inv s) (hp : (s.co c).wait = .enqueue)
    (hreach : (s.co c).reaches s.waitQueue.length = true) :
    Moves s { s.set c { s.co c with wait := .countUp } with
      waitQueue := s.waitQueue ++ [c] } c { s.co c with wait := .countUp } := by
  have htokens := hi.tokens c
  rw [hp] at htokens
  have hzero : s.waitQueue.count c = 0 ∧ (s.co c).schedules = 0 := by
    simp only [WaitPc.isEnqueued, Bool.toNat_false, Waiter.releases] at htokens
    omega
  have hc : c ∉ s.waitQueue := List.count_eq_zero.mp hzero.1
  have hw := hi.ok c
  refine
    { co := rfl
      ok := hw.goWait (by rw [hp]; rfl) (by rw [hp]; nofun) rfl nofun (fun _ => rfl)
        fun _ => hw.blocked (.inl hp)
      node := hi.node c
      tokens := ?_
      others := fun d hd => ?_
      reach := fun _ => ?_
      reachOthers := fun d hd h => ?_ }
  · rw [hp]
    simp only [List.count_append, List.count_singleton_self, WaitPc.isEnqueued, Bool.toNat_false,
      Bool.toNat_true, Waiter.releases]
    omega
  · simp [List.count_append, Ne.symm hd]
  · rw [List.idxOf_append_of_notMem hc, List.idxOf_cons_self, Nat.add_zero]
    exact hreach
  · have hmem : d ∈ s.waitQueue := by simpa [hd] using h
    rw [List.idxOf_append_of_mem hmem]
    exact hi.reach d hmem

theorem Inv.waitMoves (hi : Inv s) {same chain : Bool} (hg : inTime s (.wait c same chain) = true)
    (ha : waitStep s c (s.co c) same chain (s.co c).wait = some s') : ∃ w, Moves s s' c w := by
  have hw := hi.ok c
  cases hp : (s.co c).wait with
  | onReady =>
      rw [hp] at ha
      cases ha
      exact ⟨_, hi.stayWaiting (hw.enter (by rw [hp]; rfl) rfl nofun (.inl rfl)) rfl rfl
        (by rw [hp]; rfl) fun _ _ => rfl⟩
  | readyCancelled =>
      rw [hp] at ha
      cases ha
      have hold : (s.co c).wait.isEntering = true := by rw [hp]; rfl
      split
      next h =>
        rw [(hw.entering hold).1] at h
        exact ⟨_, hi.stayWaiting (hw.goOn hold (onReady_shouldNotSuspend h)) rfl rfl
          (by rw [hp]; rfl) fun _ => id⟩
      next =>
        exact ⟨_, hi.stayWaiting (hw.enter hold rfl nofun (.inr ⟨by rw [hp]; nofun, rfl⟩)) rfl rfl
          (by rw [hp]; rfl) fun _ => id⟩
  | suspendCancelled =>
      rw [hp] at ha
      cases ha
      exact ⟨_, hi.stayWaiting (hw.enter (by rw [hp]; rfl) rfl WaitPc.suspend.inj
        (.inr ⟨by rw [hp]; nofun, rfl⟩)) rfl rfl (by rw [hp]; rfl) fun _ => id⟩
  | suspend isCancelled =>
      have hold : (s.co c).wait.isEntering = true := by rw [hp]; rfl
      rw [hp] at ha
      simp only [waitStep, (hw.entering hold).1, setStatus, Option.map_some,
        Option.some.injEq] at ha
      subst ha
      split
      next h =>
        have hc : (s.co c).cancelled = true := hw.seen (by rw [hp, onSuspend_shouldNotSuspend h])
        exact ⟨_, hi.stayWaiting (hw.goOn hold hc) rfl rfl (by rw [hp]; rfl) fun _ => id⟩
      next =>
        have hready : (s.co c).wait ≠ .onReady := by rw [hp]; nofun
        split
        · exact ⟨_, hi.stayWaiting (hw.suspend hold hready rfl (.inl rfl)) rfl rfl
            (by rw [hp]; rfl) fun _ => id⟩
        · exact ⟨_, hi.stayWaiting (hw.suspend hold hready rfl (.inr rfl)) rfl rfl
            (by rw [hp]; rfl) fun _ => id⟩
  | isSignaled =>
      rw [hp] at ha
      cases ha
      refine ⟨_, hi.stayWaiting (hw.goWait (by rw [hp]; rfl) (by rw [hp]; nofun) rfl nofun
        (fun h => ?_) (by rintro (h | h) <;> cases h)) rfl rfl (by rw [hp]; rfl) fun _ => id⟩
      have := (hw.scheduled h).2
      rw [hp] at this
      cases this
  | setMaybeBlocked =>
      rw [hp] at ha
      cases ha
      refine ⟨_, hi.stayWaiting (hw.goWait (by rw [hp]; rfl) (by rw [hp]; nofun) rfl nofun
        (fun h => ?_) fun _ => rfl) rfl rfl (by rw [hp]; rfl) fun _ => id⟩
      have := (hw.scheduled h).2
      rw [hp] at this
      cases this
  | enqueue =>
      rw [hp] at ha
      cases ha
      simp only [inTime, hp] at hg
      exact ⟨_, hi.enqueue hp hg⟩
  | countUp =>
      rw [hp] at ha
      cases ha
      exact ⟨_, hi.stayWaiting (hw.goWait (by rw [hp]; rfl) (by rw [hp]; nofun) rfl nofun
        (fun _ => rfl) fun _ => hw.blocked (.inr (by rw [hp]; rfl))) rfl rfl (by rw [hp]; rfl)
        fun _ => id⟩
  | setWaitListed =>
      rw [hp] at ha
      cases ha
      exact ⟨_, hi.stayWaiting (hw.goWait (by rw [hp]; rfl) (by rw [hp]; nofun) rfl nofun
        (fun _ => rfl) fun _ => rfl) rfl rfl (by rw [hp]; rfl) fun _ => id⟩
  | suspended => simp [hp, waitStep] at ha
  | notSuspended => simp [hp, waitStep] at ha

theorem Inv.resumeMoves (hi : Inv s) (ha : resumeStep s c (s.co c) (s.co c).resume = some s') :
    ∃ w, Moves s s' c w ∧ w.wait = (s.co c).wait := by
  have hw := hi.ok c
  cases hr : (s.co c).resume with
  | idle => simp [hr, resumeStep] at ha
  | resumed e => simp [hr, resumeStep] at ha
  | removeAwaiter =>
      have hne : (s.co c).resume ≠ .idle := by rw [hr]; nofun
      rw [hr] at ha
      cases ha
      exact ⟨_, hi.stayWaiting (hw.goResume (hw.resumed hne) nofun nofun) rfl rfl rfl
        fun hc => absurd (hi.of_mem hc).2.2.2.2 hne, rfl⟩
  | setRunning =>
      have hne : (s.co c).resume ≠ .idle := by rw [hr]; nofun
      rw [hr, resumeStep, Option.map_eq_some_iff] at ha
      obtain ⟨newStatus, _, rfl⟩ := ha
      refine ⟨_, hi.stayWaiting (hw.goResume (hw.resumed hne) ?_ ?_) rfl rfl rfl fun _ => id, rfl⟩
      · split <;> nofun
      · split <;> nofun
  | spinPaused =>
      have hne : (s.co c).resume ≠ .idle := by rw [hr]; nofun
      rw [hr] at ha
      cases ha
      refine ⟨_, hi.stayWaiting (hw.goResume (hw.resumed hne) ?_ ?_) rfl rfl rfl fun _ => id, rfl⟩
      · split <;> nofun
      · split <;> nofun
  | checkCancelled =>
      have hne : (s.co c).resume ≠ .idle := by rw [hr]; nofun
      rw [hr] at ha
      cases ha
      refine ⟨_, hi.stayWaiting (hw.goResume (hw.resumed hne) nofun fun e h => ?_) rfl rfl rfl
        fun _ => id, rfl⟩
      cases h
      exact hw.cancelled_of_resumed hne

theorem Inv.stayCancelling {p : CancelPc Co} (hi : Inv s) {count : UInt64}
    (hp : (s.co c).cancel = p) (hearly : q.isEarly = p.isEarly)
    (hout : (s.co c).status = .running → p.isOutside = true → q.isOutside = true)
    (hbefore : q.isBeforeTake = true → p.isBeforeTake = true)
    (hnode : ∀ found left x, q = .removeEnqueue found left x → x ≠ c)
    (hholds : ∀ d, q.holds d = p.holds d) (hscheduling : q.isScheduling = p.isScheduling)
    (hreach : c ∈ s.waitQueue → (s.co c).reaches (s.waitQueue.idxOf c) = true →
      Waiter.reaches { s.co c with cancel := q } (s.waitQueue.idxOf c) = true) :
    Moves s { s.set c { s.co c with cancel := q } with count := count } c
      { s.co c with cancel := q } := by
  subst hp
  refine hi.stay ((hi.ok c).goCancel hearly hout hbefore) hnode hholds ?_ rfl hreach
  rw [Waiter.releases, hscheduling]
  rfl

theorem Inv.not_isEntering (hi : Inv s) (h : (s.co c).cancel.isOutside = false) :
    (s.co c).wait.isEntering ≠ true := fun he => by
  have := ((hi.ok c).entering he).2
  rw [h] at this
  cases this

/-- A step of `cancel` after its first reads that changes the coroutine. -/
theorem Inv.stayCancellingLate {p : CancelPc Co} {status : CoroutineStatus} {listed : Bool}
    (hi : Inv s) (hp : (s.co c).cancel = p) (hold : p.isEarly = false)
    (hout : p.isOutside = false) (hearly : q.isEarly = false) (hbefore : q.isBeforeTake = false)
    (hnode : ∀ found left x, q = .removeEnqueue found left x → x ≠ c)
    (hholds : ∀ d, q.holds d = p.holds d) (hscheduling : q.isScheduling = p.isScheduling)
    (hreach : c ∈ s.waitQueue → (s.co c).reaches (s.waitQueue.idxOf c) = true →
      Waiter.reaches { s.co c with status := status, awaiterListed := listed, cancel := q }
        (s.waitQueue.idxOf c) = true) :
    Moves s (s.set c { s.co c with status := status, awaiterListed := listed, cancel := q }) c
      { s.co c with status := status, awaiterListed := listed, cancel := q } := by
  subst hp
  have hw := hi.ok c
  have hent : (s.co c).wait.isEntering = true → status = .running ∧ q.isOutside = true :=
    fun h => absurd h (hi.not_isEntering hout)
  refine hi.stay (hw.goCancelLate hold hent hearly hbefore le_rfl fun h => (hw.scheduled h).2) hnode
    hholds ?_ rfl hreach
  rw [Waiter.releases, hscheduling]
  rfl

theorem Inv.dequeue {found : Bool} {left : ℕ} {node : Co} {rest : List Co} (hi : Inv s)
    (hp : (s.co c).cancel = .removeDequeue found (left + 1)) (hq : s.waitQueue = node :: rest) :
    Moves s { s.set c { s.co c with cancel := .removeCountDown found left node } with
      waitQueue := rest } c { s.co c with cancel := .removeCountDown found left node } := by
  have hmem : ∀ d ∈ rest, d ∈ s.waitQueue := fun d hd => hq ▸ List.mem_cons_of_mem _ hd
  have hidx : ∀ d ∈ rest, s.waitQueue.idxOf d = rest.idxOf d + 1 := fun d hd => by
    have hone := (hi.of_mem (hmem d hd)).1
    have hpos : 0 < rest.count d := List.count_pos_iff.mpr hd
    have hne : node ≠ d := by
      rintro rfl
      rw [hq, List.count_cons_self] at hone
      omega
    rw [hq, List.idxOf_cons_ne _ hne]
  refine
    { co := rfl
      ok := (hi.ok c).goCancel (by rw [hp]; rfl) (by rw [hp]; nofun) nofun
      node := nofun
      tokens := ?_
      others := fun d _ => ?_
      reach := fun hc => ?_
      reachOthers := fun d _ hd => ?_ }
  · simp only [hq, hp, List.count_cons, beq_iff_eq, CancelPc.holds, Waiter.releases,
      CancelPc.isScheduling]
    omega
  · simp only [hq, hp, List.count_cons, beq_iff_eq, CancelPc.holds]
    omega
  · have h := hi.reach c (hmem c hc)
    simp only [Waiter.reaches, hp, hidx c hc, decide_eq_true_eq] at h ⊢
    omega
  · exact Waiter.reaches_mono (hidx d hd ▸ Nat.le_succ _) (hi.reach d (hmem d hd))

/-- A round of `remove`: it takes the first node, or gives up for want of rounds
or nodes. It does not give up on a coroutine that is in the list. -/
theorem Inv.removeDequeue {found : Bool} {left : ℕ} (hi : Inv s)
    (hp : (s.co c).cancel = .removeDequeue found left)
    (ha : cancelStep s c (s.co c) (.removeDequeue found left) = some s') :
    ∃ w, Moves s s' c w ∧ w.wait = (s.co c).wait := by
  have hfail : ∀ {t}, (c ∈ s.waitQueue → ¬s.waitQueue.idxOf c < left) →
      some (s.set c { s.co c with cancel := .takeAwaiter true }) = some t →
      ∃ w, Moves s t c w ∧ w.wait = (s.co c).wait := fun hno h => by
    cases h
    refine ⟨_, hi.stayCancelling hp rfl (fun _ => nofun) nofun nofun (fun _ => rfl) rfl
      fun hc h => absurd ?_ (hno hc), rfl⟩
    simpa [Waiter.reaches, hp] using h
  cases left with
  | zero => exact hfail (fun _ => by omega) ha
  | succ left =>
      cases hq : s.waitQueue with
      | nil =>
          simp only [cancelStep, hq] at ha
          exact hfail (fun h => by simp [hq] at h) ha
      | cons node rest =>
          simp only [cancelStep, hq, Option.some.injEq] at ha
          subst ha
          exact ⟨_, hi.dequeue hp hq, rfl⟩

/-- The node that the `remove` took out is the one that it looks for. -/
theorem Inv.takeOut {found : Bool} {left : ℕ} {count : UInt64} (hi : Inv s)
    (hp : (s.co c).cancel = .removeCountDown found left c) :
    Moves s { s.set c { s.co c with cancel := .schedule found } with count := count } c
      { s.co c with cancel := .schedule found } := by
  refine
    { co := rfl
      ok := (hi.ok c).goCancel (by rw [hp]; rfl) (by rw [hp]; nofun) nofun
      node := nofun
      tokens := ?_
      others := fun d hd => ?_
      reach := fun hc => ?_
      reachOthers := fun d _ hd => hi.reach d hd }
  · simp only [hp, State.set, CancelPc.holds, Waiter.releases, CancelPc.isScheduling, if_true,
      Bool.toNat_true, Bool.toNat_false]
    omega
  · simp [hp, State.set, CancelPc.holds, Ne.symm hd]
  · have := (hi.of_mem hc).2.1 c
    simp [hp, CancelPc.holds] at this

theorem Inv.putBack {found : Bool} {left : ℕ} {node : Co} (hi : Inv s)
    (hp : (s.co c).cancel = .removeEnqueue found left node)
    (hreach : (s.co node).reaches s.waitQueue.length = true) :
    Moves s { s.set c { s.co c with cancel := .removeCountUp found left } with
      waitQueue := s.waitQueue ++ [node] } c
      { s.co c with cancel := .removeCountUp found left } := by
  have hnode : node ≠ c := hi.node c found left node hp
  have hout : node ∉ s.waitQueue := fun h => by
    have := (hi.of_mem h).2.1 c
    simp [hp, CancelPc.holds] at this
  refine
    { co := rfl
      ok := (hi.ok c).goCancel (by rw [hp]; rfl) (by rw [hp]; nofun) nofun
      node := nofun
      tokens := ?_
      others := fun d _ => ?_
      reach := fun hc => ?_
      reachOthers := fun d _ hd => ?_ }
  · simp [hp, List.count_append, CancelPc.holds, Waiter.releases, CancelPc.isScheduling, hnode]
  · simp [hp, List.count_append, List.count_singleton, CancelPc.holds]
  · have hmem : c ∈ s.waitQueue := by simpa [Ne.symm hnode] using hc
    rw [List.idxOf_append_of_mem hmem]
    simpa [Waiter.reaches, hp] using hi.reach c hmem
  · by_cases hdn : d = node
    · subst hdn
      rw [List.idxOf_append_of_notMem hout, List.idxOf_cons_self]
      exact hreach
    · have hmem : d ∈ s.waitQueue := by simpa [hdn] using hd
      rw [List.idxOf_append_of_mem hmem]
      exact hi.reach d hmem

theorem Inv.cancelMoves (hi : Inv s) (hg : inTime s (.canceller c) = true)
    (ha : cancelStep s c (s.co c) (s.co c).cancel = some s') :
    ∃ w, Moves s s' c w ∧ w.wait = (s.co c).wait := by
  have hw := hi.ok c
  have hmem : c ∈ s.waitQueue → (s.co c).cancel.isBeforeTake = true →
      (s.co c).awaiterListed = true ∧ (s.co c).status = suspended := fun hc hb => by
    obtain ⟨_, _, _, hq, hr⟩ := hi.of_mem hc
    obtain ⟨hq, hready⟩ := WaitPc.not_isEntering hq
    exact ⟨hw.listed hready hr hb, hw.waiting hq hr hb⟩
  have hfalse : ∀ {P : Prop}, (∀ i, (s.co c).reaches i = false) → c ∈ s.waitQueue →
      (s.co c).reaches (s.waitQueue.idxOf c) = true → P := fun h _ ht => by
    rw [h] at ht
    cases ht
  cases hp : (s.co c).cancel with
  | idle => simp [hp, cancelStep] at ha
  | returned => simp [hp, cancelStep] at ha
  | isCancelled =>
      have hc : (s.co c).cancelled = false := by rw [hw.cancelled, hp]; rfl
      rw [hp] at ha
      cases ha
      split
      next h => simp [hc] at h
      next =>
        exact ⟨_, hi.stayCancelling hp rfl (fun _ _ => rfl) (fun _ => rfl) nofun (fun _ => rfl) rfl
          fun _ _ => rfl, rfl⟩
  | setCancelled =>
      rw [hp] at ha
      cases ha
      exact ⟨_, hi.stay (hw.setCancelled hp) nofun (fun _ => by rw [hp]; rfl)
        (by rw [Waiter.releases, Waiter.releases, hp]; rfl) rfl fun _ _ => rfl, rfl⟩
  | status =>
      rw [hp] at ha
      cases ha
      split
      next hs =>
        exact ⟨_, hi.stayCancelling hp rfl (fun h => by rw [hs] at h; cases h) (fun _ => rfl) nofun
          (fun _ => rfl) rfl fun _ _ => rfl, rfl⟩
      next hs =>
        exact ⟨_, hi.stayCancelling hp rfl (fun _ _ => rfl) (fun _ => rfl) nofun (fun _ => rfl) rfl
          fun hc _ => absurd (hmem hc (by rw [hp]; rfl)).2 hs, rfl⟩
  | empty =>
      rw [hp] at ha
      cases ha
      split
      next =>
        exact ⟨_, hi.stayCancelling hp rfl (fun _ => nofun) (fun _ => rfl) nofun (fun _ => rfl) rfl
          fun _ _ => rfl, rfl⟩
      next hl =>
        exact ⟨_, hi.stayCancelling hp rfl (fun _ => nofun) (fun _ => rfl) nofun (fun _ => rfl) rfl
          fun hc _ => absurd (hmem hc (by rw [hp]; rfl)).1 hl, rfl⟩
  | pause =>
      rw [hp, cancelStep, Option.map_eq_some_iff] at ha
      obtain ⟨newStatus, _, rfl⟩ := ha
      split
      next =>
        exact ⟨_, hi.stayCancellingLate hp rfl rfl rfl rfl nofun (fun _ => rfl) rfl
          fun hc _ => (hmem hc (by rw [hp]; rfl)).1, rfl⟩
      next hs =>
        exact ⟨_, hi.stayCancellingLate hp rfl rfl rfl rfl nofun (fun _ => rfl) rfl
          fun hc _ => absurd (hmem hc (by rw [hp]; rfl)).2 hs, rfl⟩
  | takeAwaiter found =>
      rw [hp] at ha
      cases ha
      split
      next =>
        exact ⟨_, hi.stayCancellingLate hp rfl rfl rfl rfl nofun (fun _ => rfl) rfl
          fun _ _ => rfl, rfl⟩
      next hl =>
        refine ⟨_, hi.stayCancellingLate hp rfl rfl rfl rfl nofun (fun _ => rfl) rfl
          fun _ h => absurd ?_ hl, rfl⟩
        simpa [Waiter.reaches, hp] using h
  | tryAwaiter found =>
      rw [hp] at ha
      cases ha
      split
      next =>
        exact ⟨_, hi.stayCancelling hp rfl (fun _ => nofun) nofun nofun (fun _ => rfl) rfl
          fun _ _ => rfl, rfl⟩
      next hb =>
        exact ⟨_, hi.stayCancelling hp rfl (fun _ => nofun) nofun nofun (fun _ => rfl) rfl
          fun hc _ => absurd (hw.blocked (.inr (hi.of_mem hc).2.2.2.1)) hb, rfl⟩
  | removeCount found =>
      rw [hp] at ha
      cases ha
      simp only [inTime, hp, decide_eq_true_eq] at hg
      exact ⟨_, hi.stayCancelling hp rfl (fun _ => nofun) nofun nofun (fun _ => rfl) rfl
        fun hc _ => by simpa [Waiter.reaches] using hg.resolve_left fun h => h hc, rfl⟩
  | removeDequeue found left =>
      rw [hp] at ha
      exact hi.removeDequeue hp ha
  | removeCountDown found left node =>
      rw [hp] at ha
      cases ha
      split
      next hn =>
        subst hn
        exact ⟨_, hi.takeOut hp, rfl⟩
      next hn =>
        exact ⟨_, hi.stayCancelling hp rfl (fun _ => nofun) nofun
          (fun _ _ x h => by cases h; exact hn) (fun _ => rfl) rfl
          fun _ h => by simpa [Waiter.reaches, hp] using h, rfl⟩
  | removeEnqueue found left node =>
      rw [hp] at ha
      cases ha
      simp only [inTime, hp] at hg
      exact ⟨_, hi.putBack hp hg, rfl⟩
  | removeCountUp found left =>
      rw [hp] at ha
      cases ha
      exact ⟨_, hi.stayCancelling hp rfl (fun _ => nofun) nofun nofun (fun _ => rfl) rfl
        fun _ h => by simpa [Waiter.reaches, hp] using h, rfl⟩
  | schedule found =>
      rw [hp] at ha
      cases ha
      have hno : ∀ i, (s.co c).reaches i = false := fun i => by rw [Waiter.reaches, hp]
      have hout := hi.not_isEntering (c := c) (by rw [hp]; rfl)
      have henqueued : (s.co c).wait.isEnqueued = true := by
        have htokens := hi.tokens c
        by_contra h
        rw [Bool.not_eq_true] at h
        simp [h, Waiter.releases, hp, CancelPc.isScheduling] at htokens
      exact ⟨_, hi.stay (hw.goCancelLate (by rw [hp]; rfl) (fun h => absurd h hout) rfl rfl
        (Nat.le_succ _) fun _ => henqueued) nofun (fun _ => by rw [hp]; rfl)
        (by rw [Waiter.releases, Waiter.releases, hp]; rfl) rfl (hfalse hno), rfl⟩
  | checkPaused found =>
      rw [hp] at ha
      cases ha
      have hno : ∀ i, (s.co c).reaches i = false := fun i => by rw [Waiter.reaches, hp]
      split
      · exact ⟨_, hi.stayCancelling hp rfl (fun _ => nofun) nofun nofun (fun _ => rfl) rfl
          (hfalse hno), rfl⟩
      · exact ⟨_, hi.stayCancelling hp rfl (fun _ => nofun) nofun nofun (fun _ => rfl) rfl
          (hfalse hno), rfl⟩
  | resume =>
      rw [hp, cancelStep, Option.map_eq_some_iff] at ha
      obtain ⟨newStatus, _, rfl⟩ := ha
      have hno : ∀ i, (s.co c).reaches i = false := fun i => by rw [Waiter.reaches, hp]
      exact ⟨_, hi.stayCancellingLate hp rfl rfl rfl rfl nofun (fun _ => rfl) rfl (hfalse hno), rfl⟩

theorem Inv.step (hi : Inv s) {a : Action Co} (hg : inTime s a = true) (ha : step s a = some s') :
    Inv s' := by
  cases a with
  | wait c same chain =>
      obtain ⟨w, hm⟩ := hi.waitMoves hg ha
      exact hi.step_of_moves hm
  | run c =>
      obtain ⟨⟨hs, _⟩, ha⟩ := Option.ite_none_right_eq_some.mp ha
      cases ha
      exact hi.step_of_moves
        (hi.stayWaiting ((hi.ok c).goResume (.inl hs) nofun nofun) rfl rfl rfl fun _ => id)
  | resume c =>
      obtain ⟨w, hm, _⟩ := hi.resumeMoves ha
      exact hi.step_of_moves hm
  | cancel c =>
      obtain ⟨hp, ha⟩ := Option.ite_none_right_eq_some.mp ha
      cases ha
      exact hi.step_of_moves (hi.stayCancelling hp rfl (fun _ _ => rfl) (fun _ => rfl) nofun
        (fun _ => rfl) rfl fun _ _ => rfl)
  | canceller c =>
      obtain ⟨w, hm, _⟩ := hi.cancelMoves hg ha
      exact hi.step_of_moves hm

theorem stays_suspended (hi : Inv s) {a : Action Co} (hg : inTime s a = true)
    (ha : step s a = some s') (hd : (s.co d).wait = .suspended) : (s'.co d).wait = .suspended := by
  have hmoved : ∀ {c w}, s'.co = Function.update s.co c w →
      (d = c → w.wait = (s.co c).wait) → (s'.co d).wait = .suspended := fun {c w} hco hw => by
    rw [hco]
    by_cases hdc : d = c
    · subst hdc
      rw [Function.update_self, hw rfl, hd]
    · rw [Function.update_of_ne hdc, hd]
  cases a with
  | wait c same chain =>
      obtain ⟨w, hm⟩ := hi.waitMoves hg ha
      refine hmoved hm.co ?_
      rintro rfl
      simp [step, hd, waitStep] at ha
  | run c =>
      obtain ⟨_, ha⟩ := Option.ite_none_right_eq_some.mp ha
      cases ha
      exact hmoved (c := c) (w := { s.co c with resume := .removeAwaiter }) rfl fun _ => rfl
  | resume c =>
      obtain ⟨w, hm, hw⟩ := hi.resumeMoves ha
      exact hmoved hm.co fun _ => hw
  | cancel c =>
      obtain ⟨_, ha⟩ := Option.ite_none_right_eq_some.mp ha
      cases ha
      exact hmoved (c := c) (w := { s.co c with cancel := .isCancelled }) rfl fun _ => rfl
  | canceller c =>
      obtain ⟨w, hm, hw⟩ := hi.cancelMoves hg ha
      exact hmoved hm.co fun _ => hw

theorem inv_initial {order : List Co} (horder : order.Nodup) (kind : Co → AwaiterKind) :
    Inv (initial order kind) := by
  have hparked : ∀ k, (Waiter.parked k : Waiter Co).Ok := fun _ =>
    { cancelled := rfl
      scheduled := nofun
      notSuspended := nofun
      seen := nofun
      resumed := fun h => absurd rfl h
      error := nofun
      entering := nofun
      listed := fun _ _ _ => rfl
      waiting := fun _ _ _ => rfl
      blocked := fun _ => rfl }
  have hawake : ∀ k, (Waiter.awake k : Waiter Co).Ok := fun _ =>
    { cancelled := rfl
      scheduled := nofun
      notSuspended := nofun
      seen := nofun
      resumed := fun h => absurd rfl h
      error := nofun
      entering := fun _ => ⟨rfl, rfl⟩
      listed := fun h => absurd rfl h
      waiting := nofun
      blocked := by rintro (h | h) <;> cases h }
  have hcancel : ∀ c, ((initial order kind).co c).cancel = .idle := fun c => by
    simp only [initial]
    split <;> rfl
  refine
    { ok := fun c => ?_
      node := fun c found left x h => ?_
      tokens := fun c => ?_
      reach := fun c _ => ?_ }
  · simp only [initial]
    split
    · exact hparked _
    · exact hawake _
  · rw [hcancel] at h
    cases h
  · have hsum : ∑ d, ((initial order kind).co d).cancel.holds c = 0 :=
      Finset.sum_eq_zero fun d _ => by rw [hcancel]; rfl
    rw [hsum]
    simp only [initial]
    split
    next hc =>
      change order.count c + 0 + (0 + 0) = 1
      rw [List.count_eq_one_of_mem horder hc]
    next hc =>
      change order.count c + 0 + (0 + 0) = 0
      rw [List.count_eq_zero.mpr hc]
  · rw [Waiter.reaches, hcancel]

theorem inv_of_reachWhile {order : List Co} (horder : order.Nodup)
    (hs : (system order).ReachWhile (fun s a => inTime s a = true) s) :
    Inv s ∧ ∀ c ∈ order, (s.co c).wait = .suspended := by
  refine hs.invariant (I := fun s => Inv s ∧ ∀ c ∈ order, (s.co c).wait = .suspended)
    (fun s h => ?_) fun s a s' ⟨hi, hp⟩ hg ha =>
      ⟨hi.step hg ha, fun c hc => stays_suspended hi hg ha (hp c hc)⟩
  obtain ⟨kind, _, rfl⟩ := h
  refine ⟨inv_initial horder kind, fun c hc => ?_⟩
  simp [initial, hc, Waiter.parked]

end Steps

end LevelzAsync.EventWait
