import LevelzAsync.SyncTaskGetSafety

/-!
# A single reader of a `SyncTask` is always woken

With one thread in `get` the notification of `m_event.set()` meets the only thread that
can be blocked. From then on nothing stands in the way of the reader: each of its steps
is enabled and brings it closer to its return.
-/

namespace LevelzAsync.SyncTaskGet

open SyncManualResetEvent

variable {Thread E V : Type*}

variable [DecidableEq Thread] {event event' : SyncManualResetEvent.State (Option Thread)}
  {s s' : State Thread E V} {t : Thread}

/-- The event as `SyncManualResetEvent` has it; who is blocked is in the wait. -/
structure Woken (event : SyncManualResetEvent.State (Option Thread)) : Prop where
  inv : SyncManualResetEvent.Inv event
  blocked : ∀ u ∈ event.monitor.waiting, event.call u = .waitReacquire

omit [DecidableEq Thread] in
theorem blocked_update [DecidableEq Thread] {u : Option Thread} {p : Call}
    (h : ∀ v ∈ event.monitor.waiting, event.call v = .waitReacquire)
    (hcall : event'.call = Function.update event.call u p)
    (hwaiting : ∀ v ∈ event'.monitor.waiting, v ≠ u → v ∈ event.monitor.waiting)
    (hself : u ∈ event'.monitor.waiting → p = .waitReacquire) :
    ∀ v ∈ event'.monitor.waiting, event'.call v = .waitReacquire := by
  intro v hv
  rw [hcall]
  by_cases hvu : v = u
  · subst hvu
    rw [Function.update_self]
    exact hself hv
  · rw [Function.update_of_ne hvu]
    exact h v (hwaiting v hv hvu)

theorem blocked_callStep {u notified : Option Thread}
    (h : ∀ v ∈ event.monitor.waiting, event.call v = .waitReacquire)
    (hs : callStep event u notified (event.call u) = some event') :
    ∀ v ∈ event'.monitor.waiting, event'.call v = .waitReacquire := by
  have hout : event.call u ≠ .waitReacquire → u ∉ event.monitor.waiting :=
    fun hne hu => hne (h u hu)
  cases hp : event.call u with rw [hp] at hs hout
  | idle => cases hs
  | setLock | resetLock | waitLock =>
      obtain ⟨m, hm, rfl⟩ := Option.map_eq_some_iff.mp hs
      obtain ⟨-, rfl⟩ := Monitor.lock_eq hm
      exact blocked_update h rfl (fun v hv _ => hv) fun hu => absurd hu (hout nofun)
  | setNotify =>
      obtain ⟨m, hm, rfl⟩ := Option.map_eq_some_iff.mp hs
      have hsub : m.waiting ⊆ event.monitor.waiting := by
        rw [Monitor.notifyOne_waiting hm]
        exact Finset.erase_subset _ _
      exact blocked_update h rfl (fun v hv _ => hsub hv) fun hu => absurd (hsub hu) (hout nofun)
  | waitBlock =>
      cases hs
      exact blocked_update h rfl (fun v hv hne => Finset.mem_of_mem_insert_of_ne hv hne)
        fun _ => rfl
  | waitReacquire =>
      obtain ⟨m, hm, rfl⟩ := Option.map_eq_some_iff.mp hs
      obtain ⟨hu, -, rfl⟩ := Monitor.reacquire_eq hm
      exact blocked_update h rfl (fun v hv _ => hv) fun hu' => absurd hu' hu
  | _ =>
      cases hs
      exact blocked_update h rfl (fun v hv _ => hv) fun hu => absurd hu (hout nofun)

/-- With one reader at most one thread is blocked when the event is set. -/
theorem Woken.step [Subsingleton Thread] {a : SyncManualResetEvent.Action (Option Thread)}
    (h : Woken event) (hwaiter : ∀ t : Thread, waitCalls (event.call (some t)) = true)
    (hs : SyncManualResetEvent.step event a = some event') : Woken event' := by
  have hone : OneWaiter event a := by
    cases a with
    | call u notified =>
        intro hstore
        have hnone : ∀ v ∈ event.monitor.waiting, v ≠ none := by
          rintro v hv rfl
          cases u with
          | none =>
              rw [h.blocked none hv] at hstore
              cases hstore
          | some t =>
              have hwait := hwaiter t
              rw [hstore] at hwait
              cases hwait
        refine Finset.card_le_one.mpr fun v hv w hw => ?_
        obtain ⟨v, rfl⟩ := Option.ne_none_iff_exists'.mp (hnone v hv)
        obtain ⟨w, rfl⟩ := Option.ne_none_iff_exists'.mp (hnone w hw)
        rw [Subsingleton.elim v w]
    | _ => trivial
  refine ⟨h.inv.step hone hs, ?_⟩
  cases a with
  | call u notified => exact blocked_callStep h.blocked hs
  | spurious u =>
      cases hs
      exact fun v hv => h.blocked v (Finset.mem_of_mem_erase hv)
  | set u | reset u | wait u =>
      obtain ⟨hidle, he⟩ := Option.ite_none_right_eq_some.mp hs
      cases he
      refine blocked_update h.blocked rfl (fun v hv _ => hv) fun hu => ?_
      have hblocked := h.blocked u hu
      rw [hidle] at hblocked
      cases hblocked

theorem step_event {a : Action Thread E V} (hs : step s a = some s') :
    s'.event = s.event ∨
      ∃ b, SyncManualResetEvent.step s.event b = some s'.event := by
  obtain ⟨-, hs⟩ := Option.ite_none_left_eq_some.mp hs
  cases a with
  | life a =>
      obtain ⟨-, hs⟩ := Option.ite_none_right_eq_some.mp hs
      obtain ⟨life, -, rfl⟩ := Option.map_eq_some_iff.mp hs
      exact .inl rfl
  | finish r =>
      obtain ⟨-, hs⟩ := Option.ite_none_right_eq_some.mp hs
      obtain ⟨life, -, rfl⟩ := Option.map_eq_some_iff.mp hs
      exact .inl rfl
  | promise notified =>
      unfold State.promiseStep at hs
      dsimp only at hs
      split at hs
      · cases hs
        exact .inl rfl
      · cases hs
        exact .inl rfl
      · obtain ⟨-, hs⟩ := Option.ite_none_right_eq_some.mp hs
        obtain ⟨event, he, rfl⟩ := Option.map_eq_some_iff.mp hs
        exact .inr ⟨_, he⟩
      · obtain ⟨event, he, rfl⟩ := Option.map_eq_some_iff.mp hs
        exact .inr ⟨_, he⟩
      · cases hs
      · cases hs
      · cases hs
  | get t =>
      obtain ⟨-, hs⟩ := Option.ite_none_right_eq_some.mp hs
      obtain ⟨event, he, rfl⟩ := Option.map_eq_some_iff.mp hs
      exact .inr ⟨_, he⟩
  | reader t notified =>
      unfold State.readerStep at hs
      dsimp only at hs
      split at hs
      · split_ifs at hs
        · cases hs
          exact .inl rfl
        · obtain ⟨event, he, rfl⟩ := Option.map_eq_some_iff.mp hs
          exact .inr ⟨_, he⟩
      · cases hs
        exact .inl rfl
      · cases hs
        exact .inl rfl
      · cases hs
        exact .inl rfl
      · cases hs
      · cases hs
      · cases hs
  | spurious u =>
      obtain ⟨event, he, rfl⟩ := Option.map_eq_some_iff.mp hs
      exact .inr ⟨_, he⟩

theorem woken_of_reachWhile [Subsingleton Thread]
    (hs : (system Thread E V).ReachWhile Kept s) : Woken s.event := by
  induction hs with
  | start hstart =>
      obtain ⟨cancelAbandoned, rfl⟩ := hstart
      exact ⟨⟨fun t => ⟨nofun, nofun⟩, nofun, nofun⟩, fun u hu => absurd hu (Finset.notMem_empty u)⟩
  | step hs _ ha ih =>
      rcases step_event ha with hsame | ⟨b, hb⟩
      · rwa [hsame]
      · exact ih.step (inv_of_reachWhile hs).event.waiter hb

def callRank : Call → ℕ
  | .waitLock | .waitReacquire => 3
  | .waitTest | .waitPredicate => 2
  | .waitUnlock => 1
  | _ => 0

def State.rank (s : State Thread E V) (t : Thread) : ℕ :=
  match s.get t with
  | .wait => 4 + callRank (s.event.call (some t))
  | .isDone => 3
  | .holdsException => 2
  | .getValue => 1
  | _ => 0

/-- The event has been set, and the reader is in `get`. -/
structure Awaiting (t : Thread) (s : State Thread E V) : Prop where
  reach : (system Thread E V).ReachWhile Kept s
  promise : s.promise = .set
  aborted : s.life.aborted = false
  inFlight : (s.get t).inFlight = true

omit [DecidableEq Thread] in
theorem Inv.quiet [Subsingleton Thread] (h : Inv s) (hset : s.promise = .set)
    (ht : (s.event.call (some t)).inside = false) (u : Option Thread) :
    (s.event.call u).inside = false ∧ s.event.call u ≠ .setNotify := by
  cases u with
  | none =>
      have hidle : s.event.call none = .idle := by
        by_contra hne
        rw [h.event.setting hne] at hset
        cases hset
      rw [hidle]
      exact ⟨rfl, nofun⟩
  | some u =>
      obtain rfl := Subsingleton.elim u t
      refine ⟨ht, fun hnotify => ?_⟩
      have hwait := h.event.waiter u
      rw [hnotify] at hwait
      cases hwait

theorem Awaiting.next [Subsingleton Thread] (h : Awaiting t s) :
    ∃ s', step s (.reader t none) = some s' := by
  have hinv := inv_of_reachWhile h.reach
  have hwoken := woken_of_reachWhile h.reach
  have hset := hinv.event.set h.promise
  have hflight := h.inFlight
  have hreader : ∃ s', s.readerStep t none (s.get t) = some s' := by
    cases hpc : s.get t with rw [hpc] at hflight
    | isDone | holdsException | getValue => exact ⟨_, rfl⟩
    | idle | got r | badVariantAccess => cases hflight
    | wait =>
        unfold State.readerStep
        dsimp only
        split_ifs with hidle
        · exact ⟨_, rfl⟩
        have howner : (s.event.call (some t)).inside = false → s.event.monitor.owner = none := by
          intro ht
          by_contra hne
          obtain ⟨u, hu⟩ := Option.ne_none_iff_exists'.mp hne
          have hinside := (hwoken.inv.guards u).mpr hu
          rw [(hinv.quiet h.promise ht u).1] at hinside
          cases hinside
        have hwait := hinv.event.waiter t
        unfold SyncManualResetEvent.step
        dsimp only
        cases hcall : s.event.call (some t) with rw [hcall] at hwait howner
        | idle => exact absurd hcall hidle
        | waitLock =>
            unfold callStep Monitor.lock
            dsimp only
            rw [if_pos (howner rfl)]
            exact ⟨_, rfl⟩
        | waitReacquire =>
            have hfree : some t ∉ s.event.monitor.waiting := by
              intro hmem
              obtain ⟨⟨u, hu⟩, -⟩ := hwoken.inv.woken hset ⟨_, hmem⟩
              exact (hinv.quiet h.promise (by rw [hcall]; rfl) u).2 hu
            unfold callStep Monitor.reacquire Monitor.lock
            dsimp only
            rw [if_neg hfree, if_pos (howner rfl)]
            exact ⟨_, rfl⟩
        | waitTest | waitPredicate | waitBlock | waitUnlock => exact ⟨_, rfl⟩
        | _ => cases hwait
  obtain ⟨s', hs'⟩ := hreader
  unfold step
  rw [h.aborted, if_neg Bool.false_ne_true]
  exact ⟨s', hs'⟩

theorem Inv.callRank_lt [Subsingleton Thread] {notified : Option Thread} (h : Inv s)
    (hwoken : Woken s.event) (hset : s.event.isSet = true)
    (hs : callStep s.event (some t) notified (s.event.call (some t)) = some event') :
    callRank (event'.call (some t)) < callRank (s.event.call (some t)) := by
  have hwait := h.event.waiter t
  have hself : ∀ {p : Call}, event'.call = Function.update s.event.call (some t) p →
      event'.call (some t) = p := fun hcall => by rw [hcall, Function.update_self]
  cases hcall : s.event.call (some t) with rw [hcall] at hs hwait
  | idle => cases hs
  | waitLock =>
      obtain ⟨m, -, rfl⟩ := Option.map_eq_some_iff.mp hs
      rw [hself rfl]
      decide
  | waitTest | waitPredicate =>
      cases hs
      rw [hself rfl, if_pos hset]
      decide
  | waitBlock =>
      rw [hwoken.inv.unset _ hcall] at hset
      cases hset
  | waitReacquire =>
      obtain ⟨m, -, rfl⟩ := Option.map_eq_some_iff.mp hs
      rw [hself rfl]
      decide
  | waitUnlock =>
      cases hs
      rw [hself rfl]
      decide
  | _ => cases hwait

theorem Awaiting.step [Subsingleton Thread] {notified : Option Thread} (h : Awaiting t s)
    (hs : step s (.reader t notified) = some s') :
    (∃ r, s'.get t = .got r ∧ s'.outcome = some r) ∨ Awaiting t s' ∧ s'.rank t < s.rank t := by
  have hinv := inv_of_reachWhile h.reach
  have hreach : (system Thread E V).ReachWhile Kept s' :=
    .step (a := .reader t notified) h.reach trivial hs
  have hinv' := inv_of_reachWhile hreach
  obtain ⟨-, hs⟩ := Option.ite_none_left_eq_some.mp hs
  have hflight := h.inFlight
  have hs : s.readerStep t notified (s.get t) = some s' := hs
  unfold State.rank
  cases hpc : s.get t with rw [hpc] at hs hflight
  | wait =>
      right
      unfold State.readerStep at hs
      dsimp only at hs
      split_ifs at hs with hidle
      · cases hs
        have hself : (s.put t .isDone).get t = .isDone := Function.update_self ..
        refine ⟨⟨hreach, h.promise, h.aborted, by rw [hself]; rfl⟩, ?_⟩
        rw [hself]
        dsimp only
        omega
      · obtain ⟨event, he, rfl⟩ := Option.map_eq_some_iff.mp hs
        have hlt := hinv.callRank_lt (woken_of_reachWhile h.reach) (hinv.event.set h.promise) he
        refine ⟨⟨hreach, h.promise, h.aborted, h.inFlight⟩, ?_⟩
        dsimp only
        rw [hpc]
        dsimp only
        omega
  | isDone =>
      cases hs
      have hself : (s.put t .holdsException).get t = .holdsException := Function.update_self ..
      refine .inr ⟨⟨hreach, h.promise, h.aborted, ?_⟩, ?_⟩
      · exact (congrArg GetPc.inFlight hself).trans rfl
      · dsimp only
        rw [hself]
        dsimp only
        omega
  | holdsException =>
      have hself : ∀ pc, (s.put t pc).get t = pc := fun pc => Function.update_self ..
      have hgoOn : s' = s.put t .getValue →
          Awaiting t s' ∧ s'.rank t < 2 := by
        rintro rfl
        refine ⟨⟨hreach, h.promise, h.aborted, by rw [hself]; rfl⟩, ?_⟩
        unfold State.rank
        rw [hself]
        dsimp only
        omega
      unfold State.readerStep at hs
      dsimp only at hs
      cases hvalue : s.value with rw [hvalue] at hs
      | value v => exact .inr (hgoOn (Option.some.inj hs).symm)
      | exception caught =>
          cases caught with
          | none => exact .inr (hgoOn (Option.some.inj hs).symm)
          | some e =>
              cases hs
              exact .inl ⟨.error e, hself _, (hinv'.readers.got t _ (hself _)).1⟩
  | getValue =>
      have hself : ∀ pc, (s.put t pc).get t = pc := fun pc => Function.update_self ..
      unfold State.readerStep at hs
      dsimp only at hs
      cases hvalue : s.value with rw [hvalue] at hs
      | value v =>
          cases hs
          exact .inl ⟨.ok v, hself _, (hinv'.readers.got t _ (hself _)).1⟩
      | exception caught =>
          cases hs
          exact absurd (hself _) (hinv'.readers.access t)
  | _ => cases hflight

/-- A single reader always comes back with the outcome once the event is set, in whatever
it was overtaken by the setter. -/
theorem get_returns [Subsingleton Thread] (hs : (system Thread E V).ReachWhile Kept s)
    (hset : s.promise = .set) (haborted : s.life.aborted = false)
    (hget : (s.get t).inFlight = true) :
    (system Thread E V).Inevitable (fun a => ∃ notified, a = .reader t notified)
      (fun s => ∃ r, s.get t = .got r ∧ s.outcome = some r) s := by
  refine StepSystem.inevitable_of_rank (I := Awaiting t) (fun s => s.rank t) (fun s h => ?_)
    (fun s a s' h ha hs' => ?_) ⟨hs, hset, haborted, hget⟩
  · obtain ⟨s', hs'⟩ := h.next
    exact ⟨_, s', ⟨none, rfl⟩, hs'⟩
  · obtain ⟨notified, rfl⟩ := ha
    exact h.step hs'

theorem get_returns_woken : ∃ s : State Unit Unit Bool,
    s.event.call (some ()) = .waitReacquire ∧
      (system Unit Unit Bool).Inevitable (fun a => ∃ notified, a = .reader () notified)
        (fun s => ∃ r, s.get () = .got r ∧ s.outcome = some r) s := by
  obtain ⟨s, hs, hpromise, haborted, hget, hcall⟩ := StepSystem.Reach.exists_of_exec
    (M := (system Unit Unit Bool).restrict fun _ a => a.drops = false)
    (P := fun s => s.promise = .set ∧ s.life.aborted = false ∧ (s.get ()).inFlight = true ∧
      s.event.call (some ()) = .waitReacquire)
    (s := initial true) (.start ⟨true, rfl⟩) returnsTrue (by decide)
  have hreach : (system Unit Unit Bool).ReachWhile Kept s :=
    hs.reachWhile.mono fun _ _ => kept_of_not_drops
  exact ⟨s, hcall, get_returns hreach hpromise haborted hget⟩

end LevelzAsync.SyncTaskGet
