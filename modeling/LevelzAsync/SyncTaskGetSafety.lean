import LevelzAsync.SyncTaskGet

/-!
# `SyncTask::get` returns what the body has returned

The event is set only when the promise has its final value, and never reset, so a thread
that comes back from the wait finds the coroutine done and the value there, as long as
the handle is held.
-/

namespace LevelzAsync.SyncTaskGet

open CoroutineStatus SyncManualResetEvent

variable {Thread E V : Type*}

def PromisePc.hasReturned : PromisePc E V → Bool
  | .body | .storeValue _ | .setReturned _ => false
  | .storeException _ | .returned | .setting | .set => true

def PromisePc.sets : PromisePc E V → Bool
  | .setting | .set => true
  | _ => false

/-- What is known of the result; `held` says that nobody has begun to drop the handle. -/
def PromisePc.Fits (held : Bool) (value : Variant E V) (outcome : Option (Except E V)) :
    PromisePc E V → Prop
  | .body => True
  | .storeValue v => outcome = some (.ok v)
  | .setReturned none => ∃ v, outcome = some (.ok v) ∧ (held = true → value = .value v)
  | .setReturned (some e) | .storeException e => outcome = some (.error e)
  | .returned | .setting | .set =>
      ∃ r, outcome = some r ∧ (held = true → value = .ofOutcome r)

structure PromiseInv (life : Lifecycle.State) (promise : PromisePc E V) (value : Variant E V)
    (outcome : Option (Except E V)) : Prop where
  reach : Lifecycle.system.Reach life
  returned : promise.hasReturned = life.own.hasReturned
  fits : promise.Fits life.holder.holdsHandle value outcome

def setCalls : Call → Bool
  | .idle | .setLock | .setTest | .setStore | .setNotify | .setUnlock => true
  | _ => false

def waitCalls : Call → Bool
  | .idle | .waitLock | .waitTest | .waitPredicate | .waitBlock | .waitReacquire
  | .waitUnlock => true
  | _ => false

def GetPc.checks : GetPc E V → Bool
  | .isDone | .holdsException | .getValue => true
  | _ => false

structure EventInv (event : SyncManualResetEvent.State (Option Thread)) (promise : PromisePc E V)
    (get : Thread → GetPc E V) : Prop where
  setter : setCalls (event.call none) = true
  setting : event.call none ≠ .idle → promise = .setting
  notifies : event.call none = .setNotify ∨ event.call none = .setUnlock → event.isSet = true
  isSet : event.isSet = true → promise.sets = true
  set : promise = .set → event.isSet = true
  waiter : ∀ t, waitCalls (event.call (some t)) = true
  unlocks : ∀ t, event.call (some t) = .waitUnlock → event.isSet = true
  waited : ∀ t, get t = .wait → event.call (some t) = .idle → event.isSet = true
  checks : ∀ t, (get t).checks = true → event.isSet = true

structure ReaderInv (life : Lifecycle.State) (outcome : Option (Except E V))
    (get : Thread → GetPc E V) : Prop where
  held : ∀ t, (get t).inFlight = true → life.holder.holdsHandle = true
  getValue : ∀ t, get t = .getValue → ∃ v, outcome = some (.ok v)
  got : ∀ t r, get t = .got r → outcome = some r ∧ life.own.hasReturned = true
  access : ∀ t, get t ≠ .badVariantAccess

structure Inv (s : State Thread E V) : Prop where
  promise : PromiseInv s.life s.promise s.value s.outcome
  event : EventInv s.event s.promise s.get
  readers : ReaderInv s.life s.outcome s.get
  assertFailed : s.assertFailed = false

section Events

variable {event event' : SyncManualResetEvent.State (Option Thread)}
  {promise promise' : PromisePc E V} {get : Thread → GetPc E V} {t : Thread} {pc : GetPc E V}

theorem hasReturned_of_sets (h : promise.sets = true) : promise.hasReturned = true := by
  cases promise with
  | setting | set => rfl
  | _ => cases h

theorem EventInv.setPromise (h : EventInv event promise get) (hsets : promise.sets = false)
    (hsets' : promise'.sets = false) : EventInv event promise' get where
  setter := h.setter
  setting hidle := by
    rw [h.setting hidle] at hsets
    cases hsets
  notifies := h.notifies
  isSet hset := by
    rw [h.isSet hset] at hsets
    cases hsets
  set hset := by
    rw [hset] at hsets'
    cases hsets'
  waiter := h.waiter
  unlocks := h.unlocks
  waited := h.waited
  checks := h.checks

variable [DecidableEq Thread]

theorem EventInv.put (h : EventInv event promise get)
    (hwait : pc = .wait → event.call (some t) = .idle → event.isSet = true)
    (hchecks : pc.checks = true → event.isSet = true) :
    EventInv event promise (Function.update get t pc) where
  setter := h.setter
  setting := h.setting
  notifies := h.notifies
  isSet := h.isSet
  set := h.set
  waiter := h.waiter
  unlocks := h.unlocks
  waited u hu hidle := by
    by_cases hut : u = t
    · subst hut
      rw [Function.update_self] at hu
      exact hwait hu hidle
    · rw [Function.update_of_ne hut] at hu
      exact h.waited u hu hidle
  checks u hu := by
    by_cases hut : u = t
    · subst hut
      rw [Function.update_self] at hu
      exact hchecks hu
    · rw [Function.update_of_ne hut] at hu
      exact h.checks u hu

/-- A step of a wait: it comes to its end only when the event is set. -/
theorem callStep_wait {u notified : Option Thread} (hcall : waitCalls (event.call u) = true)
    (h : callStep event u notified (event.call u) = some event') :
    ∃ p, event'.call = Function.update event.call u p ∧ waitCalls p = true ∧
      event'.isSet = event.isSet ∧ (p = .waitUnlock → event.isSet = true) ∧
      (p = .idle → event.call u = .waitUnlock) := by
  cases hp : event.call u with rw [hp] at h hcall
  | waitLock =>
      obtain ⟨m, -, rfl⟩ := Option.map_eq_some_iff.mp h
      exact ⟨.waitTest, rfl, rfl, rfl, nofun, nofun⟩
  | waitTest | waitPredicate =>
      cases h
      refine ⟨_, rfl, ?_, rfl, ?_, ?_⟩
      · split_ifs <;> rfl
      · split_ifs with hset
        · exact fun _ => hset
        · nofun
      · split_ifs <;> nofun
  | waitBlock =>
      cases h
      exact ⟨.waitReacquire, rfl, rfl, rfl, nofun, nofun⟩
  | waitReacquire =>
      obtain ⟨m, -, rfl⟩ := Option.map_eq_some_iff.mp h
      exact ⟨.waitPredicate, rfl, rfl, rfl, nofun, nofun⟩
  | waitUnlock =>
      cases h
      exact ⟨.idle, rfl, rfl, rfl, nofun, fun _ => rfl⟩
  | idle => cases h
  | _ => cases hcall

/-- A step of `set`: it comes to its end only with the event set. -/
theorem callStep_set {u notified : Option Thread} (hcall : setCalls (event.call u) = true)
    (hnotifies : event.call u = .setNotify ∨ event.call u = .setUnlock → event.isSet = true)
    (h : callStep event u notified (event.call u) = some event') :
    ∃ p, event'.call = Function.update event.call u p ∧ setCalls p = true ∧
      (event.isSet = true → event'.isSet = true) ∧
      (p = .setNotify ∨ p = .setUnlock ∨ p = .idle → event'.isSet = true) := by
  cases hp : event.call u with rw [hp] at h hcall hnotifies
  | setLock =>
      obtain ⟨m, -, rfl⟩ := Option.map_eq_some_iff.mp h
      exact ⟨.setTest, rfl, rfl, id, nofun⟩
  | setTest =>
      cases h
      refine ⟨_, rfl, ?_, id, ?_⟩
      · split_ifs <;> rfl
      · split_ifs with hset
        · exact fun _ => hset
        · nofun
  | setStore =>
      cases h
      exact ⟨.setNotify, rfl, rfl, fun _ => rfl, fun _ => rfl⟩
  | setNotify =>
      obtain ⟨m, -, rfl⟩ := Option.map_eq_some_iff.mp h
      exact ⟨.setUnlock, rfl, rfl, id, fun _ => hnotifies (.inl rfl)⟩
  | setUnlock =>
      cases h
      exact ⟨.idle, rfl, rfl, id, fun _ => hnotifies (.inr rfl)⟩
  | idle => cases h
  | _ => cases hcall

theorem EventInv.wait {p : Call} (h : EventInv event promise get)
    (hcall : event'.call = Function.update event.call (some t) p) (hwaits : waitCalls p = true)
    (hset : event'.isSet = event.isSet) (hunlock : p = .waitUnlock → event.isSet = true)
    (hidle : p = .idle → event.isSet = true) : EventInv event' promise get := by
  have hnone : event'.call none = event.call none := by
    rw [hcall, Function.update_of_ne (Option.some_ne_none t).symm]
  have hother : ∀ u, u ≠ t → event'.call (some u) = event.call (some u) := fun u hu => by
    rw [hcall, Function.update_of_ne fun he => hu (Option.some.inj he)]
  have hself : event'.call (some t) = p := by rw [hcall, Function.update_self]
  refine ⟨?_, ?_, ?_, ?_, ?_, fun u => ?_, fun u hu => ?_, fun u hu hu' => ?_, ?_⟩
  · rw [hnone]
    exact h.setter
  · rw [hnone]
    exact h.setting
  · rw [hnone, hset]
    exact h.notifies
  · rw [hset]
    exact h.isSet
  · rw [hset]
    exact h.set
  · by_cases hut : u = t
    · rw [hut, hself]
      exact hwaits
    · rw [hother u hut]
      exact h.waiter u
  · rw [hset]
    by_cases hut : u = t
    · rw [hut, hself] at hu
      exact hunlock hu
    · rw [hother u hut] at hu
      exact h.unlocks u hu
  · rw [hset]
    by_cases hut : u = t
    · rw [hut, hself] at hu'
      exact hidle hu'
    · rw [hother u hut] at hu'
      exact h.waited u hu hu'
  · rw [hset]
    exact h.checks

theorem EventInv.setterStep {p : Call} (h : EventInv event promise get)
    (hcall : event'.call = Function.update event.call none p) (hsets : setCalls p = true)
    (hset : event.isSet = true → event'.isSet = true)
    (hlast : p = .setNotify ∨ p = .setUnlock ∨ p = .idle → event'.isSet = true)
    (hpromise : promise' = if p = .idle then .set else .setting) :
    EventInv event' promise' get := by
  have hnone : event'.call none = p := by rw [hcall, Function.update_self]
  have hother : ∀ u, event'.call (some u) = event.call (some u) := fun u => by
    rw [hcall, Function.update_of_ne (Option.some_ne_none u)]
  refine ⟨?_, fun hp => ?_, fun hp => ?_, fun _ => ?_, fun hp => ?_, fun u => ?_, fun u hu => ?_,
    fun u hu hu' => ?_, fun u hu => hset (h.checks u hu)⟩
  · rwa [hnone]
  · rw [hnone] at hp
    rw [hpromise, if_neg hp]
  · rw [hnone] at hp
    exact hlast (hp.imp_right .inl)
  · rw [hpromise]
    split_ifs
    · rfl
    · rfl
  · rw [hpromise] at hp
    split_ifs at hp with hidle
    exact hlast (.inr (.inr hidle))
  · rw [hother]
    exact h.waiter u
  · rw [hother] at hu
    exact hset (h.unlocks u hu)
  · rw [hother] at hu'
    exact hset (h.waited u hu hu')

end Events

section Promises

variable {life life' : Lifecycle.State} {promise promise' : PromisePc E V}
  {value value' : Variant E V} {outcome : Option (Except E V)} {a : Lifecycle.Action}

theorem PromisePc.Fits.mono {held held' : Bool} (h : promise.Fits held value outcome)
    (hheld : held' = true → held = true ∧ value' = value) :
    promise.Fits held' value' outcome := by
  cases promise with
  | setReturned caught =>
      cases caught with
      | none =>
          obtain ⟨v, hv, hvalue⟩ := h
          exact ⟨v, hv, fun hh => (hheld hh).2.trans (hvalue (hheld hh).1)⟩
      | some e => exact h
  | returned | setting | set =>
      obtain ⟨r, hr, hvalue⟩ := h
      exact ⟨r, hr, fun hh => (hheld hh).2.trans (hvalue (hheld hh).1)⟩
  | _ => exact h

theorem PromisePc.Fits.afterReturned {held : Bool} (h : promise.Fits held value outcome) :
    promise.afterReturned.Fits held value outcome := by
  cases promise with
  | setReturned caught =>
      cases caught with
      | none =>
          obtain ⟨v, hv, hvalue⟩ := h
          exact ⟨.ok v, hv, hvalue⟩
      | some e => exact h
  | _ => exact h

theorem afterLife_of_held (hheld : life.holder.holdsHandle = true) :
    value.afterLife life a = value := by
  unfold Variant.afterLife
  split
  · rw [if_neg]
    rintro ⟨hclear, -⟩
    rw [hclear] at hheld
    cases hheld
  · rfl

/-- The step that makes `setStatus(Returned)` finds the promise ready for it. -/
theorem permits_setReturned (hown : life.own = .setReturned)
    (ha : ∃ b₁ b₂ b₃ b₄, a = .own b₁ b₂ b₃ b₄) (h : promise.permits life a = true) :
    ∃ caught, promise = .setReturned caught := by
  obtain ⟨b₁, b₂, b₃, b₄, rfl⟩ := ha
  unfold PromisePc.permits at h
  dsimp only at h
  rw [hown] at h
  cases promise with
  | setReturned caught => exact ⟨caught, rfl⟩
  | _ => cases h

theorem PromiseInv.lifeStep (h : PromiseInv life promise value outcome)
    (hpermits : promise.permits life a = true) (hs : Lifecycle.step life a = some life')
    (hpromise : promise' = if life.own = .setReturned ∧ life'.own = .countCheck then
      promise.afterReturned else promise) :
    PromiseInv life' promise' (value.afterLife life a) outcome ∧
      (promise' = promise ∨ promise.sets = false ∧ promise'.sets = false) := by
  have hreach : Lifecycle.system.Reach life' := h.reach.step hs
  have hheld : life'.holder.holdsHandle = true →
      life.holder.holdsHandle = true ∧ value.afterLife life a = value := by
    intro hheld'
    obtain ⟨hkeep, hdrop⟩ := Lifecycle.holdsHandle_step hs
    by_cases ha : a = .drop
    · rw [hdrop ha] at hheld'
      cases hheld'
    · rw [hkeep ha] at hheld'
      exact ⟨hheld', afterLife_of_held hheld'⟩
  by_cases hset : life.own = .setReturned ∧ life'.own = .countCheck
  · rw [if_pos hset] at hpromise
    have hreturned' : life'.own.hasReturned = true := by rw [hset.2]; rfl
    obtain ⟨-, -, ha⟩ := Lifecycle.setReturned_of_step (by rw [hset.1]; rfl) hs hreturned'
    obtain ⟨caught, hcaught⟩ := permits_setReturned hset.1 ha hpermits
    have hafter : promise'.hasReturned = true ∧ promise'.sets = false := by
      rw [hpromise, hcaught]
      cases caught with
      | none => exact ⟨rfl, rfl⟩
      | some e => exact ⟨rfl, rfl⟩
    refine ⟨⟨hreach, hafter.1.trans hreturned'.symm, ?_⟩, .inr ⟨by rw [hcaught]; rfl, hafter.2⟩⟩
    rw [hpromise]
    exact (h.fits.mono hheld).afterReturned
  · rw [if_neg hset] at hpromise
    subst hpromise
    refine ⟨⟨hreach, ?_, h.fits.mono hheld⟩, .inl rfl⟩
    rw [h.returned]
    cases hown : life.own.hasReturned with
    | true => exact (Lifecycle.hasReturned_step hown hs).symm
    | false =>
        by_contra hne
        obtain ⟨hreturned, hcheck, -⟩ :=
          Lifecycle.setReturned_of_step hown hs (by simpa using Ne.symm hne)
        exact hset ⟨hreturned, hcheck⟩

end Promises

section Readers

variable [DecidableEq Thread] {life life' : Lifecycle.State} {outcome : Option (Except E V)}
  {get : Thread → GetPc E V} {t : Thread} {pc : GetPc E V}

theorem ReaderInv.put (h : ReaderInv life outcome get)
    (hheld : pc.inFlight = true → life.holder.holdsHandle = true)
    (hvalue : pc = .getValue → ∃ v, outcome = some (.ok v))
    (hgot : ∀ r, pc = .got r → outcome = some r ∧ life.own.hasReturned = true)
    (haccess : pc ≠ .badVariantAccess) : ReaderInv life outcome (Function.update get t pc) := by
  have hcases : ∀ {Q : GetPc E V → Prop}, Q pc → (∀ u, Q (get u)) →
      ∀ u, Q (Function.update get t pc u) := by
    intro Q hpc hget u
    by_cases hu : u = t
    · subst hu
      rwa [Function.update_self]
    · rw [Function.update_of_ne hu]
      exact hget u
  exact ⟨hcases (Q := fun pc => pc.inFlight = true → _) hheld h.held,
    hcases (Q := fun pc => pc = .getValue → _) hvalue h.getValue,
    hcases (Q := fun pc => ∀ r, pc = .got r → outcome = some r ∧ life.own.hasReturned = true)
      hgot h.got,
    hcases (Q := fun pc => pc ≠ .badVariantAccess) haccess h.access⟩

omit [DecidableEq Thread] in
theorem ReaderInv.lifeStep {a : Lifecycle.Action} (h : ReaderInv life outcome get)
    (hs : Lifecycle.step life a = some life')
    (hkept : a = .drop → ∀ t, (get t).inFlight = false) : ReaderInv life' outcome get := by
  refine ⟨fun t ht => ?_, h.getValue, fun t r ht => ?_, h.access⟩
  · have ha : a ≠ .drop := by
      intro ha
      rw [hkept ha t] at ht
      cases ht
    rw [(Lifecycle.holdsHandle_step hs).1 ha]
    exact h.held t ht
  · obtain ⟨houtcome, hreturned⟩ := h.got t r ht
    exact ⟨houtcome, Lifecycle.hasReturned_step hreturned hs⟩

end Readers

section Steps

variable [DecidableEq Thread] {s s' : State Thread E V} {t : Thread}

omit [DecidableEq Thread] in
/-- A thread that has come back from the wait finds the promise at its end. -/
theorem Inv.checked (h : Inv s) (ht : (s.get t).checks = true) :
    s.life.own.hasReturned = true ∧ s.life.status.isDone = true ∧
      ∃ r, s.outcome = some r ∧ s.value = .ofOutcome r := by
  have hsets := h.event.isSet (h.event.checks t ht)
  have hreturned : s.life.own.hasReturned = true :=
    h.promise.returned.symm.trans (hasReturned_of_sets hsets)
  have hflight : (s.get t).inFlight = true := by
    cases hpc : s.get t with rw [hpc] at ht
    | isDone | holdsException | getValue => rfl
    | _ => cases ht
  have hheld := h.readers.held t hflight
  refine ⟨hreturned, ?_, ?_⟩
  · rw [Lifecycle.isDone_eq_hasReturned h.promise.reach
      (Lifecycle.not_hasAbandoned_of_holdsHandle hheld), hreturned]
  · have hfits := h.promise.fits
    cases hpromise : s.promise with rw [hpromise] at hsets hfits
    | setting | set =>
        obtain ⟨r, hr, hvalue⟩ := hfits
        exact ⟨r, hr, hvalue hheld⟩
    | _ => cases hsets

omit [DecidableEq Thread] in
theorem Inv.lifeStep {a : Lifecycle.Action} (h : Inv s)
    (hkept : a = .drop → ∀ t, (s.get t).inFlight = false) (hs : s.lifeStep a = some s') :
    Inv s' := by
  obtain ⟨hpermits, hs⟩ := Option.ite_none_right_eq_some.mp hs
  obtain ⟨life, hlife, rfl⟩ := Option.map_eq_some_iff.mp hs
  obtain ⟨hpromise, hsame⟩ := h.promise.lifeStep hpermits hlife rfl
  refine ⟨hpromise, ?_, h.readers.lifeStep hlife hkept, h.assertFailed⟩
  rcases hsame with hsame | ⟨hsets, hsets'⟩
  · dsimp only
    rw [hsame]
    exact h.event
  · exact h.event.setPromise hsets hsets'

theorem Inv.finish {r : Except E V} (h : Inv s) (hs : step s (.finish r) = some s') :
    Inv s' := by
  obtain ⟨-, hs⟩ := Option.ite_none_left_eq_some.mp hs
  obtain ⟨hbody, hs⟩ := Option.ite_none_right_eq_some.mp hs
  obtain ⟨life, hlife, rfl⟩ := Option.map_eq_some_iff.mp hs
  have hreturned : s.life.own.hasReturned = false := by rw [hbody]; rfl
  have hsets : s.promise.sets = false := by
    by_contra hne
    have := hasReturned_of_sets (Bool.eq_true_of_not_eq_false hne)
    rw [h.promise.returned, hreturned] at this
    cases this
  have hreturned' : life.own.hasReturned = false := by
    by_contra hne
    obtain ⟨hown, -⟩ :=
      Lifecycle.setReturned_of_step hreturned hlife (Bool.eq_true_of_not_eq_false hne)
    rw [hbody] at hown
    cases hown
  have hunchecked : ∀ t, (s.get t).checks = false := by
    intro t
    by_contra hne
    have hset := h.event.isSet (h.event.checks t (Bool.eq_true_of_not_eq_false hne))
    rw [hsets] at hset
    cases hset
  have hreach : Lifecycle.system.Reach life :=
    h.promise.reach.step (a := .body .finish) hlife
  refine ⟨⟨hreach, ?_, ?_⟩, ?_, ?_, h.assertFailed⟩
  · dsimp only
    rw [hreturned']
    cases r with
    | ok v => rfl
    | error e => rfl
  · cases r with
    | ok v => rfl
    | error e => rfl
  · refine h.event.setPromise hsets ?_
    cases r with
    | ok v => rfl
    | error e => rfl
  · refine ⟨fun t ht => ?_, fun t ht => ?_, fun t r' ht => ?_, h.readers.access⟩
    · rw [(Lifecycle.holdsHandle_step hlife).1 nofun]
      exact h.readers.held t ht
    · have hcheck := hunchecked t
      rw [ht] at hcheck
      cases hcheck
    · have hgot := (h.readers.got t r' ht).2
      rw [hreturned] at hgot
      cases hgot

theorem Inv.promiseStep {notified : Option Thread} (h : Inv s)
    (hs : s.promiseStep notified = some s') : Inv s' := by
  have hpromise := h.promise
  have hevent := h.event
  unfold State.promiseStep at hs
  cases hpc : s.promise with rw [hpc] at hs hpromise hevent
  | storeValue v =>
      cases hs
      exact ⟨⟨hpromise.reach, hpromise.returned, v, hpromise.fits, fun _ => rfl⟩,
        hevent.setPromise rfl rfl, h.readers, h.assertFailed⟩
  | storeException e =>
      cases hs
      exact ⟨⟨hpromise.reach, hpromise.returned, .error e, hpromise.fits, fun _ => rfl⟩,
        hevent.setPromise rfl rfl, h.readers, h.assertFailed⟩
  | returned =>
      obtain ⟨-, hs⟩ := Option.ite_none_right_eq_some.mp hs
      obtain ⟨event, he, rfl⟩ := Option.map_eq_some_iff.mp hs
      obtain ⟨-, he⟩ := Option.ite_none_right_eq_some.mp he
      cases he
      refine ⟨⟨hpromise.reach, hpromise.returned, hpromise.fits⟩, ?_, h.readers, h.assertFailed⟩
      exact hevent.setterStep rfl rfl id nofun rfl
  | setting =>
      obtain ⟨event, he, rfl⟩ := Option.map_eq_some_iff.mp hs
      obtain ⟨p, hcall, hsets, hset, hlast⟩ := callStep_set hevent.setter hevent.notifies he
      have hself : event.call none = p := by rw [hcall, Function.update_self]
      refine ⟨⟨hpromise.reach, ?_, ?_⟩, ?_, h.readers, h.assertFailed⟩
      · dsimp only
        rw [← hpromise.returned]
        split_ifs
        · rfl
        · rfl
      · dsimp only
        split_ifs
        · exact hpromise.fits
        · exact hpromise.fits
      · refine hevent.setterStep hcall hsets hset hlast ?_
        rw [hself]
  | _ => cases hs

theorem Inv.readerStep {notified : Option Thread} (h : Inv s)
    (hs : s.readerStep t notified (s.get t) = some s') : Inv s' := by
  cases hpc : s.get t with rw [hpc] at hs
  | wait =>
      have hheld := h.readers.held t (by rw [hpc]; rfl)
      unfold State.readerStep at hs
      dsimp only at hs
      split_ifs at hs with hidle
      · cases hs
        refine ⟨h.promise, h.event.put nofun fun _ => h.event.waited t hpc hidle, ?_,
          h.assertFailed⟩
        exact h.readers.put (fun _ => hheld) nofun nofun nofun
      · obtain ⟨event, he, rfl⟩ := Option.map_eq_some_iff.mp hs
        obtain ⟨p, hcall, hwaits, hset, hunlock, hback⟩ := callStep_wait (h.event.waiter t) he
        exact ⟨h.promise, h.event.wait hcall hwaits hset hunlock
          fun hp => h.event.unlocks t (hback hp), h.readers, h.assertFailed⟩
  | isDone =>
      have hheld := h.readers.held t (by rw [hpc]; rfl)
      have hchecks : (s.get t).checks = true := by rw [hpc]; rfl
      obtain ⟨-, hdone, -⟩ := h.checked hchecks
      cases hs
      refine ⟨h.promise, h.event.put nofun fun _ => h.event.checks t hchecks,
        h.readers.put (fun _ => hheld) nofun nofun nofun, ?_⟩
      dsimp only
      rw [h.assertFailed, hdone]
      rfl
  | holdsException =>
      have hheld := h.readers.held t (by rw [hpc]; rfl)
      have hchecks : (s.get t).checks = true := by rw [hpc]; rfl
      obtain ⟨hreturned, -, r, hr, hvalue⟩ := h.checked hchecks
      cases hs
      rw [hvalue]
      cases r with
      | ok v =>
          refine ⟨h.promise, h.event.put nofun fun _ => h.event.checks t hchecks, ?_,
            h.assertFailed⟩
          exact h.readers.put (fun _ => hheld) (fun _ => ⟨v, hr⟩) nofun nofun
      | error e =>
          refine ⟨h.promise, h.event.put nofun nofun, ?_, h.assertFailed⟩
          refine h.readers.put nofun nofun (fun r' hr' => ?_) nofun
          cases hr'
          exact ⟨hr, hreturned⟩
  | getValue =>
      have hchecks : (s.get t).checks = true := by rw [hpc]; rfl
      obtain ⟨hreturned, -, r, hr, hvalue⟩ := h.checked hchecks
      obtain ⟨v, hv⟩ := h.readers.getValue t hpc
      obtain rfl : r = .ok v := Option.some.inj (hr.symm.trans hv)
      cases hs
      rw [hvalue]
      refine ⟨h.promise, h.event.put nofun nofun, ?_, h.assertFailed⟩
      refine h.readers.put nofun nofun (fun r' hr' => ?_) nofun
      cases hr'
      exact ⟨hr, hreturned⟩
  | _ => cases hs

theorem Inv.step {a : Action Thread E V} (h : Inv s) (hg : Kept s a)
    (hs : step s a = some s') : Inv s' := by
  have hstep := hs
  obtain ⟨-, hs⟩ := Option.ite_none_left_eq_some.mp hs
  cases a with
  | life a =>
      refine h.lifeStep (fun ha => ?_) hs
      subst ha
      exact hg
  | finish r => exact h.finish hstep
  | promise notified => exact h.promiseStep hs
  | get t =>
      obtain ⟨⟨hheld, -⟩, hs⟩ := Option.ite_none_right_eq_some.mp hs
      obtain ⟨event, he, rfl⟩ := Option.map_eq_some_iff.mp hs
      obtain ⟨-, he⟩ := Option.ite_none_right_eq_some.mp he
      cases he
      refine ⟨h.promise, ?_, h.readers.put (fun _ => hheld) nofun nofun nofun, h.assertFailed⟩
      have hwait : EventInv (s.event.go (some t) .waitLock) s.promise s.get :=
        h.event.wait rfl rfl rfl nofun nofun
      refine hwait.put (fun _ hidle => ?_) nofun
      unfold SyncManualResetEvent.State.go at hidle
      dsimp only at hidle
      rw [Function.update_self] at hidle
      cases hidle
  | reader t notified => exact h.readerStep hs
  | spurious t =>
      cases hs
      exact ⟨h.promise, ⟨h.event.setter, h.event.setting, h.event.notifies, h.event.isSet,
        h.event.set, h.event.waiter, h.event.unlocks, h.event.waited, h.event.checks⟩, h.readers,
        h.assertFailed⟩

theorem inv_of_reachWhile (hs : (system Thread E V).ReachWhile Kept s) : Inv s := by
  refine hs.invariant (fun s hstart => ?_) fun s a s' h hg ha => h.step hg ha
  obtain ⟨cancelAbandoned, rfl⟩ := hstart
  refine ⟨⟨.start ⟨.sync, cancelAbandoned, nofun, rfl⟩, rfl, trivial⟩, ?_, ?_, rfl⟩
  · exact ⟨rfl, nofun, nofun, nofun, nofun, fun _ => rfl, nofun, nofun, nofun⟩
  · exact ⟨nofun, nofun, nofun, nofun⟩

/-- Whoever comes back from `get` has the value that the body has returned, or the
exception that has left it; `isDone()` is true when it is asserted, and the access to
the variant never fails. -/
theorem get_returns_outcome (hs : (system Thread E V).ReachWhile Kept s) :
    s.assertFailed = false ∧ ∀ t, s.get t ≠ .badVariantAccess ∧
      ∀ r, s.get t = .got r → s.outcome = some r := by
  have h := inv_of_reachWhile hs
  exact ⟨h.assertFailed, fun t => ⟨h.readers.access t, fun r hr => (h.readers.got t r hr).1⟩⟩

end Steps

def Action.drops : Action Thread E V → Bool
  | .life .drop => true
  | _ => false

theorem kept_of_not_drops {s : State Thread E V} {a : Action Thread E V} (h : a.drops = false) :
    Kept s a := by
  cases a with
  | life e =>
      cases e with
      | drop => cases h
      | _ => trivial
  | _ => trivial

def own : Action Unit Unit Bool := .life (.own true true false true)

/-- A thread is blocked in `get` when the body returns `true` as the last unit, and is woken. -/
def returnsTrue : List (Action Unit Unit Bool) :=
  [own, own, own, .life .schedule, own, own, .get ()] ++ List.replicate 4 (.reader () none) ++
    [.finish (.ok true), .promise none, own, own, own] ++
    List.replicate 6 (.promise (some ()))

def GetPc.gotValue : GetPc E V → Option V
  | .got (.ok v) => some v
  | _ => none

theorem get_returns_outcome_true : ∃ s : State Unit Unit Bool,
    (system Unit Unit Bool).ReachWhile Kept s ∧ s.get () = .got (.ok true) ∧
      s.assertFailed = false ∧ s.outcome = some (.ok true) := by
  obtain ⟨s, hs, hvalue⟩ := StepSystem.Reach.exists_of_exec
    (M := (system Unit Unit Bool).restrict fun _ a => a.drops = false)
    (P := fun s => (s.get ()).gotValue = some true) (s := initial true) (.start ⟨true, rfl⟩)
    (returnsTrue ++ List.replicate 7 (.reader () none)) (by decide)
  have hget : s.get () = .got (.ok true) := by
    unfold GetPc.gotValue at hvalue
    split at hvalue
    · next v hv => rw [hv, Option.some.inj hvalue]
    · cases hvalue
  have hreach : (system Unit Unit Bool).ReachWhile Kept s :=
    hs.reachWhile.mono fun _ _ => kept_of_not_drops
  obtain ⟨hassert, hgets⟩ := get_returns_outcome hreach
  exact ⟨s, hreach, hget, hassert, (hgets ()).2 _ hget⟩

end LevelzAsync.SyncTaskGet
