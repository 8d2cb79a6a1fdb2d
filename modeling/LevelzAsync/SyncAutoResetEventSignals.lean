import LevelzAsync.SyncAutoResetEvent

/-!
# No signal of the auto-reset event is lost

Between the exchange that starts a wait and the store that ends it `m_state` is
never `None`, and outside of it never `NotSet`. A `set` that comes in between sees
`NotSet`, and goes on to notify.
-/

namespace LevelzAsync.SyncAutoResetEvent

namespace Call

def inside : Call → Bool
  | setNotify | setUnlock | trySetExchange | trySetNotify | trySetUnlock | waitTest _
  | waitPredicate _ | waitBlock _ | waitLastPredicate | waitAssertSet | waitStore
  | waitUnlock => true
  | _ => false

def waits : Call → Bool
  | waitExchange _ | waitAssertPrev _ | waitClear | waitLock _ | waitTest _ | waitPredicate _
  | waitBlock _ | waitReacquire _ | waitTimedOut | waitLastPredicate | waitAssertSet | waitStore
  | waitUnlock | aborted => true
  | _ => false

def notifies : Call → Bool
  | setLock | setNotify | trySetNotify => true
  | _ => false

/-- The values that `m_state` can have while the waiter is at this point. -/
def fits : Call → EventState → Prop
  | waitLock _, state | waitTest _, state | waitPredicate _, state | waitBlock _, state
  | waitReacquire _, state | waitTimedOut, state | waitLastPredicate, state
  | waitStore, state => state ≠ .none
  | waitAssertPrev prevState, state => prevState = .set ∧ state = .set
  | waitClear, state | waitAssertSet, state => state = .set
  | aborted, _ => False
  | _, state => state ≠ .notSet

theorem fits.set {p : Call} {state : EventState} (h : p.fits state) : p.fits .set := by
  cases p <;> simp_all [fits]

theorem fits_of_not_waits {p : Call} (hp : p.waits = false) {state : EventState} :
    p.fits state ↔ state ≠ .notSet := by
  cases p <;> simp_all [fits, waits]

theorem not_waits_of_notifies {p : Call} (hp : p.notifies = true) : p.waits = false := by
  cases p <;> simp_all [notifies, waits]

end Call

variable {Thread : Type*}

/-- The waiter is blocked, or is going to block whatever `m_state` is by then. -/
def AtRisk (waiter : Thread) (s : State Thread) : Prop :=
  (∃ timed, s.call waiter = .waitBlock timed) ∨ waiter ∈ s.monitor.waiting

structure Inv (waiter : Thread) (s : State Thread) : Prop where
  guards : s.monitor.Guards Call.inside s.call
  others : ∀ t, t ≠ waiter → (s.call t).waits = false
  fits : (s.call waiter).fits s.state
  waiting : ∀ t ∈ s.monitor.waiting, t = waiter ∧ ∃ timed, s.call waiter = .waitReacquire timed
  woken : s.state = .set → AtRisk waiter s → ∃ t, (s.call t).notifies = true
  signalled : s.signalled = true → s.state = .set ∨ s.call waiter = .waitUnlock

variable [DecidableEq Thread] {waiter t : Thread} {s s' : State Thread} {p : Call}

theorem Inv.waiterStep (h : Inv waiter s) (hcall : s'.call = Function.update s.call waiter p)
    (hwaits : (s.call waiter).waits = true) (hguards : s'.monitor.Guards Call.inside s'.call)
    (hfits : p.fits s'.state)
    (hwaiting : ∀ u ∈ s'.monitor.waiting, u = waiter ∧ ∃ timed, p = .waitReacquire timed)
    (hrisk : s'.state = .set → (∃ timed, p = .waitBlock timed) ∨ waiter ∈ s'.monitor.waiting →
      s.state = .set ∧ AtRisk waiter s)
    (hsignalled : s'.signalled = true → s'.state = .set ∨ p = .waitUnlock) : Inv waiter s' := by
  have hp : s'.call waiter = p := by rw [hcall, Function.update_self]
  have hrest : ∀ u, u ≠ waiter → s'.call u = s.call u := fun u hu => by
    rw [hcall, Function.update_of_ne hu]
  refine ⟨hguards, fun u hu => by rw [hrest u hu]; exact h.others u hu, hp ▸ hfits, ?_, ?_, ?_⟩
  · rw [hp]
    exact hwaiting
  · intro hs hr
    unfold AtRisk at hr
    rw [hp] at hr
    obtain ⟨hs, hr⟩ := hrisk hs hr
    obtain ⟨u, hu⟩ := h.woken hs hr
    refine ⟨u, ?_⟩
    rw [hrest u, hu]
    rintro rfl
    rw [Call.not_waits_of_notifies hu] at hwaits
    cases hwaits
  · rw [hp]
    exact hsignalled

theorem Inv.setterStep (h : Inv waiter s) (hcall : s'.call = Function.update s.call t p)
    (ht : (s.call t).waits = false) (hp : p.waits = false)
    (hguards : s'.monitor.Guards Call.inside s'.call)
    (hstate : s'.state = s.state ∨ s'.state = .set)
    (hwaiting : s'.monitor.waiting ⊆ s.monitor.waiting)
    (hwoken : s'.state = .set → AtRisk waiter s → waiter ∈ s'.monitor.waiting ∨
      (∃ timed, s.call waiter = .waitBlock timed) →
      p.notifies = true ∨ s.state = .set ∧ (s.call t).notifies = false)
    (hsignalled : s'.signalled = true → s.signalled = true ∨ s'.state = .set) :
    Inv waiter s' := by
  have hother : ∀ u, (s.call u).waits = true → s'.call u = s.call u := fun u hu => by
    rw [hcall, Function.update_of_ne]
    rintro rfl
    rw [ht] at hu
    cases hu
  have hkind : (s'.call waiter).waits = (s.call waiter).waits := by
    rw [hcall]
    by_cases hw : waiter = t
    · rw [hw, Function.update_self, hp, ht]
    · rw [Function.update_of_ne hw]
  refine ⟨hguards, ?_, ?_, ?_, ?_, ?_⟩
  · intro u hu
    rcases agent_cases (Q := fun q => q = s'.call u) hcall rfl with ⟨_, hq⟩ | ⟨_, hq⟩
    · rw [← hq, hp]
    · rw [← hq, h.others u hu]
  · cases hw : (s.call waiter).waits with
    | true =>
        rw [hother waiter hw]
        rcases hstate with hs | hs <;> rw [hs]
        · exact h.fits
        · exact h.fits.set
    | false =>
        rw [Call.fits_of_not_waits (hkind.trans hw)]
        rcases hstate with hs | hs <;> rw [hs]
        · exact (Call.fits_of_not_waits hw).mp h.fits
        · nofun
  · intro u hu
    obtain ⟨rfl, timed, hc⟩ := h.waiting u (hwaiting hu)
    exact ⟨rfl, timed, by rw [hother u (by rw [hc]; rfl), hc]⟩
  · intro hs hr
    have hblock : (∃ timed, s'.call waiter = .waitBlock timed) →
        ∃ timed, s.call waiter = .waitBlock timed := by
      rintro ⟨timed, hc⟩
      have hw : (s.call waiter).waits = true := by rw [← hkind, hc]; rfl
      exact ⟨timed, by rw [← hother waiter hw, hc]⟩
    have hrisk : AtRisk waiter s := hr.imp hblock fun hw => hwaiting hw
    rcases hwoken hs hrisk (hr.symm.imp_right hblock) with hn | ⟨hs, hn⟩
    · exact ⟨t, by rw [hcall, Function.update_self, hn]⟩
    · obtain ⟨u, hu⟩ := h.woken hs hrisk
      refine ⟨u, ?_⟩
      rw [hcall, Function.update_of_ne, hu]
      rintro rfl
      rw [hu] at hn
      cases hn
  · intro hs
    rcases hsignalled hs with hs | hs
    · rcases h.signalled hs with hs | hc
      · rcases hstate with hs' | hs'
        · exact .inl (hs'.trans hs)
        · exact .inl hs'
      · exact .inr (by rw [hother waiter (by rw [hc]; rfl), hc])
    · exact .inl hs

section Setters

omit [DecidableEq Thread] in
theorem Inv.state_ne_none (h : Inv waiter s) (hr : AtRisk waiter s) : s.state ≠ .none := by
  have hfits := h.fits
  rcases hr with ⟨timed, hc⟩ | hw
  · rw [hc] at hfits
    exact hfits
  · obtain ⟨-, timed, hc⟩ := h.waiting waiter hw
    rw [hc] at hfits
    exact hfits

theorem Inv.setterGo {m : Monitor Thread} (h : Inv waiter s) (ht : (s.call t).waits = false)
    (hp : p.waits = false) (hguards : m.Guards Call.inside (Function.update s.call t p))
    (hwaiting : m.waiting = s.monitor.waiting)
    (hn : p.notifies = true ∨ (s.call t).notifies = false) : Inv waiter (s.goLocked t p m) :=
  h.setterStep rfl ht hp hguards (.inl rfl) (subset_of_eq hwaiting)
    (fun hs _ _ => hn.imp_right fun hn => ⟨hs, hn⟩) .inl

/-- `Set` is stored by a setter that goes on to notify if the waiter may need it. -/
theorem Inv.exchangeSet (h : Inv waiter s) (ht : (s.call t).waits = false) (hp : p.waits = false)
    (hin : p.inside = (s.call t).inside) (hn : (s.call t).notifies = false)
    (hnotifies : s.state = .notSet → p.notifies = true) : Inv waiter (s.exchangeSet t p) := by
  refine h.setterStep rfl ht hp (h.guards.stay rfl hin) (.inr rfl) subset_rfl ?_ fun _ => .inr rfl
  intro _ hr _
  cases hs : s.state with
  | notSet => exact .inl (hnotifies hs)
  | set => exact .inr ⟨rfl, hn⟩
  | none => exact absurd hs (h.state_ne_none hr)

theorem Inv.notify {m : Monitor Thread} {notified : Thread} (h : Inv waiter s)
    (hm : s.monitor.notifyOne notified = some m) (ht : (s.call t).waits = false)
    (hin : (s.call t).inside = true) (hp : p.waits = false) (hpin : p.inside = true) :
    Inv waiter (s.goLocked t p m) := by
  have hsub : m.waiting ⊆ s.monitor.waiting := by
    rw [Monitor.notifyOne_waiting hm]
    exact Finset.erase_subset _ _
  refine h.setterStep rfl ht hp (h.guards.stay (Monitor.notifyOne_owner hm) (hpin.trans hin.symm))
    (.inl rfl) hsub ?_ .inl
  rintro - - (hw | ⟨timed, hc⟩)
  · have hnotified : notified = waiter :=
      (h.waiting _ (Monitor.mem_of_notifyOne hm (hsub hw))).1
    change waiter ∈ m.waiting at hw
    rw [Monitor.notifyOne_waiting hm, hnotified] at hw
    exact absurd rfl (Finset.ne_of_mem_erase hw)
  · have hw : waiter = t := h.guards.eq (by rw [hc]; rfl) hin
    rw [← hw, hc] at ht
    cases ht

end Setters

section Waiter

omit [DecidableEq Thread] in
theorem Inv.waiting_eq_empty (h : Inv waiter s)
    (hc : ∀ timed, s.call waiter ≠ .waitReacquire timed) : s.monitor.waiting = ∅ := by
  rw [Finset.eq_empty_iff_forall_notMem]
  intro t ht
  obtain ⟨-, timed, he⟩ := h.waiting t ht
  exact hc timed he

/-- A step of the waiter after which it is neither blocked nor about to block. -/
theorem Inv.waiterGo (h : Inv waiter s) (hcall : s'.call = Function.update s.call waiter p)
    (hwaits : (s.call waiter).waits = true) (hguards : s'.monitor.Guards Call.inside s'.call)
    (hfits : p.fits s'.state) (hwaiting : s'.monitor.waiting = ∅)
    (hblock : s'.state = .set → ∀ timed, p ≠ .waitBlock timed)
    (hsignalled : s'.signalled = true → s'.state = .set ∨ p = .waitUnlock) : Inv waiter s' := by
  refine h.waiterStep hcall hwaits hguards hfits ?_ ?_ hsignalled
  · rw [hwaiting]
    exact fun u hu => absurd hu (Finset.notMem_empty u)
  · rw [hwaiting]
    rintro hs (⟨timed, hp⟩ | hw)
    · exact absurd hp (hblock hs timed)
    · exact absurd hw (Finset.notMem_empty waiter)

omit [DecidableEq Thread] in
theorem Inv.signalled_set (h : Inv waiter s) (hc : s.call waiter ≠ .waitUnlock)
    (hs : s.signalled = true) : s.state = .set :=
  (h.signalled hs).resolve_right hc

theorem Inv.waiterPlain (h : Inv waiter s) (hwaits : (s.call waiter).waits = true)
    (hc : ∀ timed, s.call waiter ≠ .waitReacquire timed) (hu : s.call waiter ≠ .waitUnlock)
    (hin : p.inside = (s.call waiter).inside) (hfits : p.fits s.state)
    (hblock : s.state = .set → ∀ timed, p ≠ .waitBlock timed) : Inv waiter (s.go waiter p) :=
  h.waiterGo rfl hwaits (h.guards.stay rfl hin) hfits (h.waiting_eq_empty hc) hblock
    fun hs => .inl (h.signalled_set hu hs)

theorem Inv.waiterLock {m : Monitor Thread} (h : Inv waiter s)
    (hm : s.monitor.lock waiter = some m) (hwaits : (s.call waiter).waits = true)
    (hempty : s.monitor.waiting = ∅) (hu : s.call waiter ≠ .waitUnlock) (hin : p.inside = true)
    (hfits : p.fits s.state) (hblock : ∀ timed, p ≠ .waitBlock timed) :
    Inv waiter (s.goLocked waiter p m) := by
  obtain ⟨hfree, rfl⟩ := Monitor.lock_eq hm
  exact h.waiterGo rfl hwaits (h.guards.enter hfree rfl hin) hfits hempty (fun _ => hblock)
    fun hs => .inl (h.signalled_set hu hs)

theorem Inv.waitBlock {timed : Bool} (h : Inv waiter s) (hc : s.call waiter = .waitBlock timed) :
    Inv waiter (s.goLocked waiter (.waitReacquire timed) (s.monitor.wait waiter)) := by
  have hempty : s.monitor.waiting = ∅ := h.waiting_eq_empty (by rw [hc]; nofun)
  have hfits := h.fits
  rw [hc] at hfits
  refine h.waiterStep rfl (by rw [hc]; rfl) (h.guards.leave (by rw [hc]; rfl) rfl rfl) hfits ?_
    (fun hs _ => ⟨hs, .inl ⟨timed, hc⟩⟩) fun hs => .inl (h.signalled_set (by rw [hc]; nofun) hs)
  intro u hu
  change u ∈ insert waiter s.monitor.waiting at hu
  rw [hempty, Finset.mem_insert] at hu
  exact ⟨hu.resolve_right (Finset.notMem_empty u), timed, rfl⟩

theorem Inv.timeout (h : Inv waiter s) (hc : s.call waiter = .waitReacquire true) :
    Inv waiter (s.goLocked waiter .waitTimedOut (s.monitor.wake waiter)) := by
  have hfits := h.fits
  rw [hc] at hfits
  refine h.waiterGo rfl (by rw [hc]; rfl) (h.guards.stay rfl (by rw [hc]; rfl)) hfits ?_
    (fun _ _ => nofun) fun hs => .inl (h.signalled_set (by rw [hc]; nofun) hs)
  rw [Finset.eq_empty_iff_forall_notMem]
  intro u hu
  exact Finset.ne_of_mem_erase hu (h.waiting u (Finset.mem_of_mem_erase hu)).1

end Waiter

omit [DecidableEq Thread] in
theorem Inv.eq_waiter (h : Inv waiter s) (ht : (s.call t).waits = true) : t = waiter := by
  by_contra hne
  rw [h.others t hne] at ht
  cases ht

theorem Inv.setCall {notified : Thread} (h : Inv waiter s) (ht : (s.call t).waits = false)
    (ha : callStep s t notified (s.call t) = some s') : Inv waiter s' := by
  cases hp : s.call t with rw [hp] at ha ht
  | idle => cases ha
  | setExchange =>
      cases ha
      refine h.exchangeSet (by rw [hp]; rfl) ?_ ?_ (by rw [hp]; rfl) ?_
      · split_ifs <;> rfl
      · rw [hp]
        split_ifs <;> rfl
      · intro hs
        rw [if_pos hs]
        rfl
  | setLock =>
      obtain ⟨m, hm, rfl⟩ := Option.map_eq_some_iff.mp ha
      obtain ⟨hfree, rfl⟩ := Monitor.lock_eq hm
      exact h.setterGo (by rw [hp]; rfl) rfl (h.guards.enter hfree rfl rfl) rfl (.inl rfl)
  | setNotify | trySetNotify =>
      obtain ⟨m, hm, rfl⟩ := Option.map_eq_some_iff.mp ha
      exact h.notify hm (by rw [hp]; rfl) (by rw [hp]; rfl) rfl rfl
  | setUnlock | trySetUnlock =>
      cases ha
      exact h.setterGo (by rw [hp]; rfl) rfl (h.guards.leave (by rw [hp]; rfl) rfl rfl) rfl
        (.inr (by rw [hp]; rfl))
  | trySetLock =>
      cases ha
      cases hm : s.monitor.lock t with
      | none =>
          exact h.setterGo (by rw [hp]; rfl) rfl (h.guards.stay rfl (by rw [hp]; rfl)) rfl
            (.inr (by rw [hp]; rfl))
      | some m =>
          obtain ⟨hfree, rfl⟩ := Monitor.lock_eq hm
          exact h.setterGo (by rw [hp]; rfl) rfl (h.guards.enter hfree rfl rfl) rfl
            (.inr (by rw [hp]; rfl))
  | trySetExchange =>
      cases ha
      exact h.exchangeSet (by rw [hp]; rfl) rfl (by rw [hp]; rfl) (by rw [hp]; rfl) fun _ => rfl
  | waitExchange _ | waitAssertPrev _ | waitClear | waitLock _ | waitTest _ | waitPredicate _
  | waitBlock _ | waitReacquire _ | waitTimedOut | waitLastPredicate | waitAssertSet | waitStore
  | waitUnlock | aborted => cases ht

theorem Inv.waitCall {notified : Thread} (h : Inv waiter s) (hw : (s.call waiter).waits = true)
    (ha : callStep s waiter notified (s.call waiter) = some s') : Inv waiter s' := by
  have hfits := h.fits
  cases hp : s.call waiter with rw [hp] at ha hw hfits
  | waitExchange timed =>
      cases ha
      have hempty := h.waiting_eq_empty (by rw [hp]; nofun)
      have hsignalled := h.signalled_set (by rw [hp]; nofun)
      split_ifs with hs
      · refine h.waiterGo rfl (by rw [hp]; rfl) (h.guards.stay rfl (by rw [hp]; rfl)) nofun hempty
          nofun fun hg => ?_
        rw [hsignalled hg] at hs
        cases hs
      · have hset : s.state = .set := by
          cases he : s.state with
          | set => rfl
          | notSet => exact absurd he hfits
          | none => exact absurd he hs
        exact h.waiterPlain (by rw [hp]; rfl) (by rw [hp]; nofun) (by rw [hp]; nofun)
          (by rw [hp]; rfl) ⟨hset, hset⟩ fun _ _ => nofun
  | waitAssertPrev prevState =>
      cases ha
      rw [if_pos hfits.1]
      exact h.waiterPlain (by rw [hp]; rfl) (by rw [hp]; nofun) (by rw [hp]; nofun)
        (by rw [hp]; rfl) hfits.2 fun _ _ => nofun
  | waitClear =>
      cases ha
      exact h.waiterGo rfl (by rw [hp]; rfl) (h.guards.stay rfl (by rw [hp]; rfl)) nofun
        (h.waiting_eq_empty (by rw [hp]; nofun)) nofun nofun
  | waitLock timed =>
      obtain ⟨m, hm, rfl⟩ := Option.map_eq_some_iff.mp ha
      exact h.waiterLock hm (by rw [hp]; rfl) (h.waiting_eq_empty (by rw [hp]; nofun))
        (by rw [hp]; nofun) rfl hfits nofun
  | waitTest timed =>
      cases ha
      refine h.waiterPlain (by rw [hp]; rfl) (by rw [hp]; nofun) (by rw [hp]; nofun) ?_ ?_ ?_
      · rw [hp]
        split_ifs <;> rfl
      · split_ifs <;> exact hfits
      · intro hs
        rw [if_pos hs]
        nofun
  | waitPredicate timed =>
      cases ha
      refine h.waiterPlain (by rw [hp]; rfl) (by rw [hp]; nofun) (by rw [hp]; nofun) ?_ ?_ ?_
      · rw [hp]
        split_ifs <;> rfl
      · split_ifs with hs
        · exact hfits
        · exact hfits
        · exact not_not.mp hs
      · intro hs
        rw [if_neg (not_not.mpr hs)]
        split_ifs <;> nofun
  | waitBlock timed =>
      cases ha
      exact h.waitBlock hp
  | waitReacquire timed =>
      obtain ⟨m, hm, rfl⟩ := Option.map_eq_some_iff.mp ha
      obtain ⟨hout, hm⟩ := Option.ite_none_left_eq_some.mp hm
      have hempty : s.monitor.waiting = ∅ := by
        rw [Finset.eq_empty_iff_forall_notMem]
        intro t ht
        exact hout ((h.waiting t ht).1 ▸ ht)
      exact h.waiterLock hm (by rw [hp]; rfl) hempty (by rw [hp]; nofun) rfl hfits nofun
  | waitTimedOut =>
      obtain ⟨m, hm, rfl⟩ := Option.map_eq_some_iff.mp ha
      exact h.waiterLock hm (by rw [hp]; rfl) (h.waiting_eq_empty (by rw [hp]; nofun))
        (by rw [hp]; nofun) rfl hfits nofun
  | waitLastPredicate =>
      cases ha
      exact h.waiterPlain (by rw [hp]; rfl) (by rw [hp]; nofun) (by rw [hp]; nofun)
        (by rw [hp]; rfl) hfits fun _ _ => nofun
  | waitAssertSet =>
      cases ha
      have hset : s.state = .set := hfits
      rw [if_pos hset]
      refine h.waiterPlain (by rw [hp]; rfl) (by rw [hp]; nofun) (by rw [hp]; nofun)
        (by rw [hp]; rfl) ?_ fun _ _ => nofun
      rw [hset]
      nofun
  | waitStore =>
      cases ha
      exact h.waiterGo rfl (by rw [hp]; rfl) (h.guards.stay rfl (by rw [hp]; rfl)) nofun
        (h.waiting_eq_empty (by rw [hp]; nofun)) nofun fun _ => .inr rfl
  | waitUnlock =>
      cases ha
      exact h.waiterGo rfl (by rw [hp]; rfl) (h.guards.leave (by rw [hp]; rfl) rfl rfl) hfits
        (h.waiting_eq_empty (by rw [hp]; nofun)) (fun _ _ => nofun) nofun
  | aborted => cases ha
  | idle | setExchange | setLock | setNotify | setUnlock | trySetLock | trySetExchange
  | trySetNotify | trySetUnlock => cases hw

theorem Inv.callStep {notified : Thread} (h : Inv waiter s)
    (ha : callStep s t notified (s.call t) = some s') : Inv waiter s' := by
  cases ht : (s.call t).waits with
  | false => exact h.setCall ht ha
  | true =>
      obtain rfl := h.eq_waiter ht
      exact h.waitCall ht ha

/-- A thread outside of any wait begins or ends a call of `set` or `trySet`. -/
theorem Inv.begin (h : Inv waiter s) (ht : (s.call t).waits = false)
    (hn : (s.call t).notifies = false) (hin : p.inside = (s.call t).inside)
    (hp : p.waits = false) : Inv waiter (s.go t p) :=
  h.setterGo ht hp (h.guards.stay rfl hin) rfl (.inr hn)

theorem Inv.beginWait (h : Inv waiter s) (hc : s.call waiter = .idle) (timed : Bool) :
    Inv waiter (s.go waiter (.waitExchange timed)) := by
  have hfits := h.fits
  rw [hc] at hfits
  have hempty := h.waiting_eq_empty (by rw [hc]; nofun)
  have hcall : (s.go waiter (.waitExchange timed)).call waiter = .waitExchange timed :=
    Function.update_self ..
  refine ⟨h.guards.stay rfl (by rw [hc]; rfl), ?_, by rw [hcall]; exact hfits, ?_, ?_, ?_⟩
  · intro u hu
    exact (congrArg Call.waits (Function.update_of_ne hu ..)).trans (h.others u hu)
  · intro u hu
    exact absurd (hempty ▸ hu) (Finset.notMem_empty u)
  · rintro - (⟨_, hb⟩ | hw)
    · rw [hcall] at hb
      cases hb
    · exact absurd (hempty ▸ hw) (Finset.notMem_empty waiter)
  · exact fun hs => .inl (h.signalled_set (by rw [hc]; nofun) hs)

theorem Inv.step {a : Action Thread} (h : Inv waiter s) (ha : step waiter s a = some s') :
    Inv waiter s' := by
  cases a with
  | set t | trySet t =>
      obtain ⟨ht, ha⟩ := Option.ite_none_right_eq_some.mp ha
      cases ha
      exact h.begin (by rw [ht]; rfl) (by rw [ht]; rfl) (by rw [ht]; rfl) rfl
  | wait timed =>
      obtain ⟨ht, ha⟩ := Option.ite_none_right_eq_some.mp ha
      cases ha
      exact h.beginWait ht timed
  | call t notified => exact h.callStep ha
  | tryLockFails t =>
      obtain ⟨ht, ha⟩ := Option.ite_none_right_eq_some.mp ha
      cases ha
      exact h.begin (by rw [ht]; rfl) (by rw [ht]; rfl) (by rw [ht]; rfl) rfl
  | timeout =>
      obtain ⟨hc, ha⟩ := Option.ite_none_right_eq_some.mp ha
      cases ha
      exact h.timeout hc
  | spurious =>
      cases ha
      have hsub : s.monitor.waiting.erase waiter ⊆ s.monitor.waiting := Finset.erase_subset _ _
      exact ⟨h.guards, h.others, h.fits, fun t ht => h.waiting t (hsub ht),
        fun hs hr => h.woken hs (hr.imp_right fun hw => hsub hw), h.signalled⟩

theorem inv_of_reach (hs : (system waiter).Reach s) : Inv waiter s := by
  refine StepSystem.Reach.invariant ?_ (fun s a s' h ha => h.step ha) hs
  rintro _ ⟨initiallySet, rfl⟩
  refine ⟨fun t => ⟨nofun, nofun⟩, fun _ _ => rfl, ?_, nofun, ?_, nofun⟩
  · cases initiallySet <;> nofun
  · rintro - (⟨_, hc⟩ | hw)
    · cases hc
    · cases hw

end LevelzAsync.SyncAutoResetEvent
