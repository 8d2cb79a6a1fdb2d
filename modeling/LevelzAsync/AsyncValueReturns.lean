import LevelzAsync.AsyncValueSafety

/-!
# Nobody awaits an `AsyncTask` for ever

When the body of an `AsyncTask` has ended, its promise signals the event, the calls of the
event return, and every coroutine that awaits the task is resumed and comes to the end of
its await: each step leaves the producer, the coroutines and the calls fewer steps.
-/

namespace LevelzAsync.AsyncValue

open CountDownEvent (Call)

variable {Thread Co E V : Type*}

def AwaitPc.rank : AwaitPc E V → ℕ
  | .onReady => 30
  | .readyIsSignaled => 29
  | .onSuspend => 28
  | .suspendIsSignaled _ => 27
  | .enqueue _ => 26
  | .enqueueing _ => 6
  | .refused _ => 5
  | .parked | .scheduled => 4
  | .onResume => 3
  | .checkException => 2
  | .getValue => 1
  | _ => 0

def ProducerPc.rank (cost : ℕ) : ProducerPc Thread E V → ℕ
  | .body => 0
  | .store _ => cost + 9
  | .setReturned => cost + 8
  | .assertCount => cost + 7
  | .countDown => cost + 6
  | .signalling _ => 2
  | .assertCountAfter => 1
  | .signalled => 0

/-- The body has ended and no await begins: the promise, the awaits and the calls go on. -/
def Action.continues : Action Thread Co E V → Prop
  | .producer _ | .awaiter .. => True
  | .call _ spurious => spurious = false
  | _ => False

variable [DecidableEq Thread] [DecidableEq Co] {s s' : State Thread Co E V} {t : Thread} {c : Co}

section Rank

variable [Fintype Thread] [Fintype Co]

/-- What a change of the count can cost the calls of the event. -/
def cost (Thread : Type*) [Fintype Thread] : ℕ := 6 * Fintype.card Thread + 8

def State.rank (s : State Thread Co E V) : ℕ :=
  s.event.rank + ∑ c, (s.awaiter c).rank + s.producer.rank (cost Thread)

/-- A step leaves fewer steps, and keeps what the body ended with and who has begun to
await. -/
structure Nearer (s s' : State Thread Co E V) : Prop where
  outcome : s'.outcome = s.outcome
  idle : ∀ c, s.awaiter c ≠ .idle → s'.awaiter c ≠ .idle
  rank : s'.rank < s.rank

omit [DecidableEq Thread] in
theorem Nearer.await {pc : AwaitPc E V} (hawaiter : s'.awaiter = Function.update s.awaiter c pc)
    (houtcome : s'.outcome = s.outcome) (hproducer : s'.producer = s.producer) (hpc : pc ≠ .idle)
    (hrank : s'.event.rank + pc.rank < s.event.rank + (s.awaiter c).rank) : Nearer s s' where
  outcome := houtcome
  idle d hd := by
    rw [hawaiter, Function.update_apply]
    split_ifs
    · exact hpc
    · exact hd
  rank := by
    have hsum := sum_update_tally s.awaiter AwaitPc.rank c pc
    unfold State.rank
    rw [hawaiter, hproducer]
    omega

theorem awaiterStep_nearer {sameThreadPoolKind canDoChainedExecution shutdown : Bool}
    (ha : s.awaiterStep c t sameThreadPoolKind canDoChainedExecution shutdown (s.awaiter c) =
      some s') : Nearer s s' := by
  have hput : ∀ {pc : AwaitPc E V}, pc ≠ .idle → pc.rank < (s.awaiter c).rank →
      Nearer s (s.put c pc) := fun hpc hrank => .await rfl rfl rfl hpc (Nat.add_lt_add_left hrank _)
  cases hp : s.awaiter c with rw [hp] at ha hput
  | idle | enqueueing | got | cancellationError | badVariantAccess => cases ha
  | onReady =>
      cases ha
      cases AwaiterKind.value.onReady sameThreadPoolKind canDoChainedExecution .running false
        (s.cancelled c) <;> exact hput nofun (Nat.le_of_ble_eq_true rfl)
  | readyIsSignaled =>
      cases ha
      split_ifs <;> exact hput nofun (Nat.le_of_ble_eq_true rfl)
  | onSuspend =>
      cases ha
      cases AwaiterKind.value.onSuspend sameThreadPoolKind canDoChainedExecution .running false
        (s.cancelled c) <;> exact hput nofun (Nat.le_of_ble_eq_true rfl)
  | suspendIsSignaled shouldSuspend =>
      cases ha
      cases shouldSuspend <;> split_ifs <;> exact hput nofun (Nat.le_of_ble_eq_true rfl)
  | enqueue shouldSuspend =>
      obtain ⟨event', hs, rfl⟩ := Option.map_eq_some_iff.mp ha
      obtain ⟨⟨hidle, -⟩, he⟩ := Option.ite_none_right_eq_some.mp hs
      have hrank : event'.rank = s.event.rank + 19 + cost Thread * 0 := by
        rw [← Option.some.inj he]
        exact CountDownEvent.State.rank_begin (p := .enqueueIsZero c) hidle rfl rfl rfl
      refine .await rfl rfl rfl nofun ?_
      dsimp only
      rw [hrank, hp]
      change s.event.rank + 19 + cost Thread * 0 + 6 < s.event.rank + 26
      omega
  | refused shouldSuspend =>
      cases ha
      cases shouldSuspend <;> exact .await rfl rfl rfl nofun
        (by rw [hp]; exact Nat.add_lt_add_left (Nat.le_of_ble_eq_true rfl) _)
  | parked =>
      obtain ⟨-, he⟩ := Option.ite_none_left_eq_some.mp ha
      cases he
      exact hput nofun (Nat.le_of_ble_eq_true rfl)
  | scheduled =>
      cases ha
      exact hput nofun (Nat.le_of_ble_eq_true rfl)
  | onResume =>
      cases ha
      split_ifs
      · exact .await rfl rfl rfl nofun
          (by rw [hp]; exact Nat.add_lt_add_left (Nat.le_of_ble_eq_true rfl) _)
      · exact hput nofun (Nat.le_of_ble_eq_true rfl)
      · exact hput nofun (Nat.le_of_ble_eq_true rfl)
  | checkException =>
      cases ha
      split <;> exact hput nofun (Nat.le_of_ble_eq_true rfl)
  | getValue =>
      cases ha
      split <;> exact hput nofun (Nat.le_of_ble_eq_true rfl)

theorem producerStep_nearer (ha : s.producerStep t s.producer = some s') : Nearer s s' := by
  have hgo : ∀ {producer : ProducerPc Thread E V} {value assertFailed},
      producer.rank (cost Thread) < s.producer.rank (cost Thread) →
      Nearer s { s with
        producer := producer
        value := value
        assertFailed := assertFailed } :=
    fun hrank => ⟨rfl, fun _ => id, Nat.add_lt_add_left hrank _⟩
  cases hp : s.producer with rw [hp] at ha hgo
  | body | signalling | signalled => cases ha
  | store | setReturned | assertCount =>
      cases ha
      exact hgo (Nat.lt_succ_self _)
  | assertCountAfter =>
      cases ha
      exact hgo Nat.one_pos
  | countDown =>
      obtain ⟨event', hs, rfl⟩ := Option.map_eq_some_iff.mp ha
      obtain ⟨hidle, he⟩ := Option.ite_none_right_eq_some.mp hs
      have hrank : event'.rank = s.event.rank + 3 + cost Thread * 1 := by
        rw [← Option.some.inj he]
        exact CountDownEvent.State.rank_begin (p := .countDownLoad) hidle rfl rfl rfl
      refine ⟨rfl, fun _ => id, ?_⟩
      unfold State.rank
      dsimp only
      rw [hrank, hp]
      simp only [ProducerPc.rank]
      omega

theorem Inv.callStep_nearer (h : Inv s) (ha : s.callStep t false = some s') : Nearer s s' := by
  obtain ⟨event', hstep, rfl⟩ := Option.map_eq_some_iff.mp ha
  have hs : CountDownEvent.callStep s.event t false (s.event.call t) = some event' := hstep
  obtain ⟨p, hn⟩ := CountDownEvent.callStep_nearer hs
  have hevent := hn.rank_lt
  have hproducer : (s.producer.after t (event'.call t)).rank (cost Thread) ≤
      s.producer.rank (cost Thread) := by
    unfold ProducerPc.after
    split_ifs with hdone
    · cases hp : s.producer with rw [hp] at hdone
      | signalling u => exact Nat.le_succ 1
      | _ => cases hdone.1
    · exact le_rfl
  have hmove : ∀ {pc : AwaitPc E V} {c : Co}, pc ≠ .idle → pc.rank ≤ (s.awaiter c).rank →
      Nearer s { s with
        event := event'
        awaiter := Function.update s.awaiter c pc
        producer := s.producer.after t (event'.call t) } := by
    intro pc c hpc hle
    refine ⟨rfl, fun d hd => ?_, ?_⟩
    · dsimp only
      rw [Function.update_apply]
      split_ifs
      · exact hpc
      · exact hd
    · have hsum := sum_update_tally s.awaiter AwaitPc.rank c pc
      unfold State.rank
      dsimp only
      omega
  have hstay : Nearer s { s with
      event := event'
      producer := s.producer.after t (event'.call t) } := by
    refine ⟨rfl, fun _ => id, ?_⟩
    unfold State.rank
    dsimp only
    omega
  cases hp : s.event.call t with
  | enqueueIsZero c =>
      have henqueueing := (h.enqueueing c).mpr ⟨t, by rw [hp]; rfl⟩
      obtain ⟨shouldSuspend, hc⟩ := AwaitPc.exists_of_isEnqueueing henqueueing
      unfold State.awaiterAfter
      dsimp only
      split_ifs
      · rw [hc]
        exact hmove (by rintro ⟨⟩) (by rw [hc]; exact Nat.le_succ 5)
      · exact hstay
  | enqueuePush c =>
      have henqueueing := (h.enqueueing c).mpr ⟨t, by rw [hp]; rfl⟩
      obtain ⟨shouldSuspend, hc⟩ := AwaitPc.exists_of_isEnqueueing henqueueing
      exact hmove (by rintro ⟨⟩) (by rw [hc]; exact Nat.le_of_ble_eq_true rfl)
  | _ => exact hstay

theorem Inv.nearer {a : Action Thread Co E V} (h : Inv s) (hg : a.continues)
    (ha : AsyncValue.step s a = some s') : Nearer s s' := by
  cases a with
  | producer t => exact producerStep_nearer ha
  | awaiter c t sameThreadPoolKind canDoChainedExecution shutdown => exact awaiterStep_nearer ha
  | call t spurious =>
      obtain rfl : spurious = false := hg
      exact h.callStep_nearer ha
  | _ => cases hg

end Rank

/-! ## Something can go on -/

theorem ProducerPc.signalled_or_next (hbody : s.outcome ≠ none) (h : Inv s)
    (hidle : ∀ t, s.event.call t = .idle) (t : Thread) :
    s.event.count = 0 ∨ ∃ s', s.producerStep t s.producer = some s' := by
  have hfits := h.producer
  cases hp : s.producer with rw [hp] at hfits
  | body => exact absurd hfits.2 hbody
  | signalling u =>
      refine .inl ((h.event.signalling u (by rw [hp]; exact decide_eq_true rfl)).resolve_right ?_)
      rw [hidle u]
      nofun
  | assertCountAfter | signalled => exact .inl hfits.1
  | countDown =>
      refine .inr ⟨_, Option.map_eq_some_iff.mpr ⟨_, if_pos (hidle t), rfl⟩⟩
  | _ => exact .inr ⟨_, rfl⟩

/-- A coroutine that awaits the task can go on when the event is signalled and no call is
in progress. -/
theorem Inv.awaiter_next (h : Inv s) (hidle : ∀ t, s.event.call t = .idle)
    (hzero : s.event.count = 0) (hc : (s.awaiter c).inFlight = true) (t : Thread) :
    ∃ s', s.awaiterStep c t true true false (s.awaiter c) = some s' := by
  have hawaits : s.event.awaits c = false :=
    ((CountDownEvent.nobody_waits_of_idle h.event.reach hidle hzero).2 c).1
  cases hp : s.awaiter c with rw [hp] at hc
  | idle | got | cancellationError | badVariantAccess => cases hc
  | enqueueing shouldSuspend =>
      obtain ⟨u, hu⟩ := (h.enqueueing c).mp (by rw [hp]; rfl)
      rw [hidle u] at hu
      cases hu
  | enqueue shouldSuspend =>
      exact ⟨_, Option.map_eq_some_iff.mpr ⟨_, if_pos ⟨hidle t, hawaits⟩, rfl⟩⟩
  | parked => exact ⟨_, if_neg (by rw [hawaits]; nofun)⟩
  | _ => exact ⟨_, rfl⟩

theorem Inv.next [Nonempty Thread] (h : Inv s) (hbody : s.outcome ≠ none)
    (hc : (s.awaiter c).inFlight = true) :
    ∃ a s', Action.continues a ∧ (system Thread Co E V).step s a = some s' := by
  by_cases hidle : ∀ t, s.event.call t = .idle
  · obtain ⟨t⟩ := ‹Nonempty Thread›
    rcases ProducerPc.signalled_or_next hbody h hidle t with hzero | ⟨s', ha⟩
    · obtain ⟨s', ha⟩ := h.awaiter_next hidle hzero hc t
      exact ⟨.awaiter c t true true false, s', trivial, ha⟩
    · exact ⟨.producer t, s', trivial, ha⟩
  · obtain ⟨t, ht⟩ := not_forall.mp hidle
    obtain ⟨event', hs⟩ := CountDownEvent.callStep_isSome ht
    exact ⟨.call t false, _, rfl, Option.map_eq_some_iff.mpr ⟨event', hs, rfl⟩⟩

/-- Every coroutine that awaits an `AsyncTask` whose body has ended comes to the end of its
await, whatever the order of the steps: with what the body ended with, or because it was
cancelled. -/
theorem await_returns [Fintype Thread] [Nonempty Thread] [Fintype Co]
    (hs : (system Thread Co E V).Reach s) (hbody : s.outcome ≠ none) :
    (system Thread Co E V).Inevitable Action.continues (fun s' =>
      ∀ c, (s.awaiter c).inFlight = true →
        (∃ r, s.outcome = some r ∧ s'.awaiter c = .got r) ∨
          s'.awaiter c = .cancellationError ∧ s'.cancelled c = true) s := by
  have hend : ∀ s' : State Thread Co E V, Inv s' → s'.outcome = s.outcome →
      (∀ c, (s.awaiter c).inFlight = true → s'.awaiter c ≠ .idle) →
      (∀ c, (s'.awaiter c).inFlight = false) → ∀ c, (s.awaiter c).inFlight = true →
        (∃ r, s.outcome = some r ∧ s'.awaiter c = .got r) ∨
          s'.awaiter c = .cancellationError ∧ s'.cancelled c = true := by
    intro s' h houtcome hbegun hdone c hc
    have hfits := h.awaiter c
    have hidle := hbegun c hc
    have hdone := hdone c
    cases hp : s'.awaiter c with rw [hp] at hfits hdone hidle
    | idle => exact absurd rfl hidle
    | got r => exact .inl ⟨r, houtcome ▸ hfits, rfl⟩
    | cancellationError => exact .inr ⟨rfl, hfits⟩
    | badVariantAccess => exact hfits.elim
    | _ => cases hdone
  have hbegun : ∀ c, (s.awaiter c).inFlight = true → s.awaiter c ≠ .idle := by
    intro c hc hidle
    rw [hidle] at hc
    cases hc
  have h := inv_of_reach hs
  refine StepSystem.inevitable_at_rest (I := fun s' => Inv s' ∧ s'.outcome = s.outcome ∧
      ∀ c, (s.awaiter c).inFlight = true → s'.awaiter c ≠ .idle)
    (R := fun s' => ∀ c, (s'.awaiter c).inFlight = false) State.rank
    (fun s' ⟨h', houtcome, _⟩ hbusy => ?_)
    (fun s₁ a s₂ ⟨h₁, houtcome, hbegun₁⟩ hg ha => ?_)
    (fun s' ⟨h', houtcome, hbegun'⟩ hdone => hend s' h' houtcome hbegun' hdone) ⟨h, rfl, hbegun⟩
  · obtain ⟨c, hc⟩ := not_forall.mp hbusy
    exact h'.next (houtcome ▸ hbody) (Bool.eq_true_of_not_eq_false hc)
  · have hn := h₁.nearer hg ha
    exact ⟨⟨h₁.step ha, hn.outcome.trans houtcome, fun c hc => hn.idle c (hbegun₁ c hc)⟩, hn.rank⟩

/-- One coroutine is in the wait list and another one comes to it when the body has thrown
and its exception is not stored yet. -/
theorem await_returns_two : ∃ s : State (Fin 2) (Fin 2) Unit Bool,
    s.event.waitQueue = [0] ∧ (s.awaiter 1).inFlight = true ∧
      (system (Fin 2) (Fin 2) Unit Bool).Inevitable Action.continues (fun s' =>
        ∀ c, (s.awaiter c).inFlight = true →
          (∃ r, s.outcome = some r ∧ s'.awaiter c = .got r) ∨
            s'.awaiter c = .cancellationError ∧ s'.cancelled c = true) s := by
  obtain ⟨s, hs, hqueue, hawaiter, hbody⟩ := StepSystem.Reach.exists_of_exec
    (M := system (Fin 2) (Fin 2) Unit Bool)
    (P := fun s => s.event.waitQueue = [0] ∧ (s.awaiter 1).inFlight = true ∧
      s.outcome.isSome = true) (.start rfl)
    (.await 0 :: List.replicate 5 (.awaiter 0 0 true true false) ++
      List.replicate 4 (.call 0 false) ++
      .await 1 :: List.replicate 4 (.awaiter 1 1 false true false) ++ [.finish (.error ())])
    (by decide)
  exact ⟨s, hqueue, hawaiter, await_returns hs (Option.isSome_iff_ne_none.mp hbody)⟩

end LevelzAsync.AsyncValue
