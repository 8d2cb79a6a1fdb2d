import LevelzAsync.AwaitSuspend
import LevelzAsync.Custody

/-!
# No access after the coroutine has gone on

The coroutine is in one place at a time: in the hands of one thread, in a wait
list or a continuation, or in a queue of the pool. So nobody can take it past an
await before `await_suspend` has given it away; after that, another thread can,
and then the accesses that are still to come find a coroutine that has gone on.
-/

namespace LevelzAsync.AwaitSuspend

variable {Thread : Type*} [DecidableEq Thread]

def State.elsewhere (s : State Thread) : ℕ := s.listed.isSome.toNat + s.queued

/-- Awaits that some thread has passed are not younger than the last one, and no other
thread is inside their `await_suspend`. -/
structure Inv (s : State Thread) : Prop
    extends InOnePlace (fun t => (s.call t).holds) s.elsewhere where
  awaits_le : ∀ t n, (s.call t).awaits n = true → n ≤ s.number
  passed_le : ∀ n u, s.passed n u = true → n ≤ s.number
  apart : ∀ t u n, (s.call t).suspends n = true → s.passed n u = true → u = t

/-- A step that begins no await and passes none, and hands the coroutine over. -/
structure Continues (s s' : State Thread) (t : Thread) : Prop where
  number : s'.number = s.number
  passed : s'.passed = s.passed
  call : ∃ c, s'.call = Function.update s.call t c ∧
    c.holds.toNat + s'.elsewhere ≤ (s.call t).holds.toNat + s.elsewhere ∧
    (∀ n, c.suspends n = true → (s.call t).suspends n = true) ∧
    ∀ n, c.awaits n = true → (s.call t).awaits n = true ∨ n = s.number

variable {s s' : State Thread} {t : Thread}

theorem Call.awaits_of_suspends {c : Call} {n : ℕ} (h : c.suspends n = true) :
    c.awaits n = true := by
  cases c <;> first | exact h | cases h

theorem Inv.handOver {c : Call} (hi : Inv s) (hcall : s'.call = Function.update s.call t c)
    (hshare : c.holds.toNat + s'.elsewhere ≤ (s.call t).holds.toNat + s.elsewhere) :
    InOnePlace (fun u => (s'.call u).holds) s'.elsewhere := by
  refine hi.toInOnePlace.update (t := t) (fun u hu => ?_) ?_
  · rw [hcall, Function.update_of_ne hu]
  · rw [hcall, Function.update_self]
    exact hshare

theorem Inv.continues (hi : Inv s) (h : Continues s s' t) : Inv s' := by
  obtain ⟨hnumber, hpassed, c, hcall, hshare, hsuspends, hawaits⟩ := h
  refine ⟨hi.handOver hcall hshare, fun u n hu => ?_, ?_, fun u v n hu hv => ?_⟩
  · rw [hnumber]
    rcases agent_cases (Q := fun c : Call => c.awaits n = true) hcall hu with
      ⟨rfl, hc⟩ | ⟨-, hc⟩
    · rcases hawaits n hc with hs | rfl
      · exact hi.awaits_le u n hs
      · exact le_rfl
    · exact hi.awaits_le u n hc
  · rw [hnumber, hpassed]
    exact hi.passed_le
  · rw [hpassed] at hv
    rcases agent_cases (Q := fun c : Call => c.suspends n = true) hcall hu with
      ⟨rfl, hc⟩ | ⟨-, hc⟩
    · exact hi.apart u v n (hsuspends n hc) hv
    · exact hi.apart u v n hc hv

theorem Continues.of_suspend {n : ℕ} {mustSuspend : Bool} {pc : SuspendPc} {c : Call}
    (hs : s.call t = .suspend n mustSuspend pc) (hn : s'.number = s.number)
    (hp : s'.passed = s.passed) (hcall : s'.call = Function.update s.call t c)
    (hc : ∀ k, c.awaits k = true → n = k)
    (hshare : c.holds.toNat + s'.elsewhere ≤ pc.holds.toNat + s.elsewhere) :
    Continues s s' t := by
  refine ⟨hn, hp, c, hcall, ?_, fun k hk => ?_, fun k hk => .inl ?_⟩
  · rw [hs]
    exact hshare
  · rw [hs]
    exact decide_eq_true (hc k (Call.awaits_of_suspends hk))
  · rw [hs]
    exact decide_eq_true (hc k hk)

theorem suspendStep_continues {n : ℕ} {mustSuspend : Bool} {advice : SuspensionAdvice}
    {found : Bool} {pc : SuspendPc} (hs : s.call t = .suspend n mustSuspend pc)
    (ha : suspendStep s t n mustSuspend advice found pc = some s') : Continues s s' t := by
  have hnext : ∀ {pc : SuspendPc} k, (Call.suspend n mustSuspend pc).awaits k = true → n = k :=
    fun _ => of_decide_eq_true
  -- a thread that has the coroutine keeps it or lets it go
  have hkeep : ∀ c : Call, c.holds.toNat + s.elsewhere ≤ 1 + s.elsewhere :=
    fun c => Nat.add_le_add_right (Bool.toNat_le _) _
  have hconclude : ∀ waitListed, ∀ k,
      (if waitListed = true then Call.idle
        else if mustSuspend = true then .suspend n mustSuspend .schedule
        else .awaitResume n).awaits k = true → n = k := by
    intro waitListed k hk
    split_ifs at hk
    · cases hk
    · exact of_decide_eq_true hk
    · exact of_decide_eq_true hk
  have hdequeue : ∀ {taken ended : SuspendPc},
      s.dequeue t n mustSuspend found taken ended = some s' → pc.holds = false →
      ended.holds = false → Continues s s' t := by
    intro taken ended hd hpc hended
    unfold State.dequeue at hd
    split_ifs at hd with hf hl <;> obtain rfl := Option.some.inj hd
    · refine .of_suspend hs rfl rfl rfl hnext ?_
      rw [hpc, Call.holds, hended]
      exact le_rfl
    · refine .of_suspend hs rfl rfl rfl hnext ?_
      rw [hpc, State.elsewhere, State.elsewhere, hl]
      have := Bool.toNat_le (Call.suspend n mustSuspend taken).holds
      change _ + (0 + s.queued) ≤ 0 + (1 + s.queued)
      omega
  cases pc with
  | resumeDequeue | drainDequeue => exact hdequeue ha rfl rfl
  | releaseDequeue =>
      obtain ⟨hl, ha⟩ := Option.ite_none_right_eq_some.mp ha
      obtain rfl := Option.some.inj ha
      refine .of_suspend hs rfl rfl rfl hnext ?_
      rw [State.elsewhere, State.elsewhere, hl]
      change 1 + (0 + s.queued) ≤ 0 + (1 + s.queued)
      omega
  | onSuspend =>
      obtain rfl := Option.some.inj ha
      refine .of_suspend hs rfl rfl rfl (fun k hk => ?_) (hkeep _)
      split_ifs at hk <;> exact of_decide_eq_true hk
  | isSignaled =>
      obtain rfl := Option.some.inj ha
      split_ifs
      · exact .of_suspend hs rfl rfl rfl (hconclude false) (hkeep _)
      · exact .of_suspend hs rfl rfl rfl hnext (hkeep _)
  | taskStatus =>
      obtain rfl := Option.some.inj ha
      split_ifs
      · exact .of_suspend hs rfl rfl rfl (fun _ => of_decide_eq_true) (hkeep _)
      · exact .of_suspend hs rfl rfl rfl hnext (hkeep _)
  | setMaybeBlocked | isZero | isCanceled | arriveIsCanceled =>
      obtain rfl := Option.some.inj ha
      exact .of_suspend hs rfl rfl rfl hnext (hkeep _)
  | push | arrivePush | storeContinuation =>
      obtain rfl := Option.some.inj ha
      refine .of_suspend hs rfl rfl rfl hnext ?_
      change 0 + (1 + s.queued) ≤ 1 + (s.listed.isSome.toNat + s.queued)
      omega
  | drainSchedule =>
      obtain rfl := Option.some.inj ha
      refine .of_suspend hs rfl rfl rfl hnext ?_
      change 0 + (s.listed.isSome.toNat + (s.queued + 1)) ≤ 1 + (s.listed.isSome.toNat + s.queued)
      omega
  | schedule =>
      obtain rfl := Option.some.inj ha
      refine .of_suspend hs rfl rfl rfl nofun ?_
      change 0 + (s.listed.isSome.toNat + (s.queued + 1)) ≤ 1 + (s.listed.isSome.toNat + s.queued)
      omega
  | resumeIsZero =>
      obtain rfl := Option.some.inj ha
      split_ifs <;> refine .of_suspend hs rfl rfl rfl hnext ?_
      · change 0 + (s.listed.isSome.toNat + (s.queued + 1)) ≤
          1 + (s.listed.isSome.toNat + s.queued)
        omega
      · change 0 + (1 + s.queued) ≤ 1 + (s.listed.isSome.toNat + s.queued)
        omega
  | setWaitListed waitListed =>
      obtain rfl := Option.some.inj ha
      refine .of_suspend hs rfl rfl rfl (hconclude waitListed) ?_
      cases waitListed with
      | false => exact hkeep _
      | true => exact le_rfl
  | isZeroAgain | isCanceledAgain | arrive | setTaskMaybeBlocked | taskThreadPoolKind =>
      obtain rfl := Option.some.inj ha
      refine .of_suspend hs rfl rfl rfl hnext ?_
      split_ifs <;> exact le_rfl
  | taskSchedule | taskHandle =>
      obtain rfl := Option.some.inj ha
      exact .of_suspend hs rfl rfl rfl nofun le_rfl

theorem Continues.of_call {c : Call} (hn : s'.number = s.number) (hp : s'.passed = s.passed)
    (hcall : s'.call = Function.update s.call t c) (hsuspends : ∀ n, c.suspends n = false)
    (hawaits : ∀ n, c.awaits n = true → (s.call t).awaits n = true ∨ n = s.number)
    (hshare : c.holds.toNat + s'.elsewhere ≤ (s.call t).holds.toNat + s.elsewhere) :
    Continues s s' t :=
  ⟨hn, hp, c, hcall, hshare, fun n hn => absurd hn (by rw [hsuspends n]; exact nofun), hawaits⟩

theorem callStep_continues {advice : SuspensionAdvice} {found : Bool} {c : Call}
    (hc : s.call t = c) (ha : callStep s t advice found c = some s') : Continues s s' t := by
  cases c with
  | idle | body | onResume n => cases ha
  | suspend n mustSuspend pc => exact suspendStep_continues hc ha
  | awaitResume n =>
      obtain rfl := Option.some.inj ha
      refine .of_call rfl rfl rfl (fun _ => rfl) (fun k hk => .inl (hc ▸ hk)) ?_
      rw [hc]
      change 1 + (Bool.toNat (Option.isSome (if _ then none else s.listed)) + s.queued) ≤
        1 + (s.listed.isSome.toNat + s.queued)
      split_ifs
      · exact Nat.add_le_add_left (Nat.add_le_add_right (Nat.zero_le _) _) _
      · exact le_rfl
  | signal kind =>
      obtain rfl := Option.some.inj ha
      split_ifs
      · exact .of_call rfl rfl rfl (fun _ => rfl) nofun (by rw [hc]; exact le_rfl)
      · refine .of_call rfl rfl rfl (fun _ => rfl) nofun ?_
        rw [hc]
        change 0 + (1 + s.queued) ≤ 1 + (s.listed.isSome.toNat + s.queued)
        omega
  | complete =>
      obtain rfl := Option.some.inj ha
      split_ifs
      · exact .of_call rfl rfl rfl (fun _ => rfl) (fun k hk => .inr (of_decide_eq_true hk).symm)
          (by rw [hc]; exact le_rfl)
      · exact .of_call rfl rfl rfl (fun _ => rfl) nofun (by rw [hc]; exact le_rfl)
  | cancel n =>
      obtain rfl := Option.some.inj ha
      split_ifs with htaken
      · refine .of_call rfl rfl rfl (fun _ => rfl) nofun ?_
        have hl : s.listed.isSome = true := by
          obtain ⟨-, hl | ⟨-, hl⟩⟩ := htaken
          · rw [hl]
            rfl
          · exact Option.isSome_iff_ne_none.mpr hl
        rw [hc, State.elsewhere, State.elsewhere, hl]
        change 1 + (0 + s.queued) ≤ 0 + (1 + s.queued)
        omega
      · exact .of_call rfl rfl rfl (fun _ => rfl) nofun (by rw [hc]; exact le_rfl)
  | schedule =>
      obtain rfl := Option.some.inj ha
      refine .of_call rfl rfl rfl (fun _ => rfl) nofun ?_
      rw [hc]
      change 0 + (s.listed.isSome.toNat + (s.queued + 1)) ≤ 1 + (s.listed.isSome.toNat + s.queued)
      omega

theorem Continues.of_listed {c : Call} {kind : Kind} (hl : s.listed = some kind)
    (hs' : s' = { s.go t c with listed := none }) (hsuspends : ∀ n, c.suspends n = false)
    (hawaits : ∀ n, c.awaits n = false) : Continues s s' t := by
  subst hs'
  refine .of_call rfl rfl rfl hsuspends (fun n hn => ?_) ?_
  · rw [hawaits n] at hn
    cases hn
  · have := Bool.toNat_le c.holds
    rw [State.elsewhere, State.elsewhere, hl]
    change _ + (0 + s.queued) ≤ _ + (1 + s.queued)
    omega

theorem Inv.await {kind : Kind} (hi : Inv s) (ht : s.call t = .body) :
    Inv { s.go t (.suspend (s.number + 1) false .onSuspend) with
      number := s.number + 1
      kind := Function.update s.kind (s.number + 1) kind } := by
  have hshare : (Call.suspend (s.number + 1) false .onSuspend).holds.toNat + s.elsewhere ≤
      (s.call t).holds.toNat + s.elsewhere := by
    rw [ht]
    exact le_rfl
  refine ⟨hi.handOver rfl hshare, fun u n hu => ?_,
    fun n u hu => (hi.passed_le n u hu).trans (Nat.le_succ _), fun u v n hu hv => ?_⟩
  · rcases agent_cases (Q := fun c : Call => c.awaits n = true) rfl hu with ⟨-, hc⟩ | ⟨-, hc⟩
    · exact (of_decide_eq_true hc).ge
    · exact (hi.awaits_le u n hc).trans (Nat.le_succ _)
  · rcases agent_cases (Q := fun c : Call => c.suspends n = true) rfl hu with ⟨-, hc⟩ | ⟨-, hc⟩
    · -- nobody has passed the new await
      have hle := hi.passed_le n v hv
      have : s.number + 1 = n := of_decide_eq_true hc
      omega
    · exact hi.apart u v n hc hv

theorem Call.suspends_cases {c : Call} {n : ℕ} (h : c.suspends n = true) :
    c.holds = true ∨ c.exposes n = true := by
  cases c with
  | suspend k mustSuspend pc =>
      cases hpc : pc.holds with
      | false => exact .inr (by rw [exposes, hpc, Bool.not_false, Bool.and_true]; exact h)
      | true => exact .inl hpc
  | _ => cases h

theorem Inv.pass {n : ℕ} (hi : Inv s) (ht : s.call t = .onResume n)
    (hreturned : ∀ u, u ≠ t → (s.call u).exposes n = false) :
    Inv { s.go t .body with
      passed := Function.update s.passed n (Function.update (s.passed n) t true) } := by
  have hshare : Call.body.holds.toNat + s.elsewhere ≤ (s.call t).holds.toNat + s.elsewhere := by
    rw [ht]
    exact le_rfl
  refine ⟨hi.handOver rfl hshare, fun u k hu => ?_, fun k u hu => ?_,
    fun u v k hu hv => ?_⟩
  · rcases agent_cases (Q := fun c : Call => c.awaits k = true) rfl hu with ⟨-, hc⟩ | ⟨-, hc⟩
    · cases hc
    · exact hi.awaits_le u k hc
  · rcases agent_cases (Q := fun p : Thread → Bool => p u = true) rfl hu with ⟨rfl, -⟩ | ⟨-, hp⟩
    · exact hi.awaits_le t k (by rw [ht]; exact decide_eq_true rfl)
    · exact hi.passed_le k u hp
  · rcases agent_cases (Q := fun c : Call => c.suspends k = true) rfl hu with ⟨-, hc⟩ | ⟨hne, hc⟩
    · cases hc
    · rcases agent_cases (Q := fun p : Thread → Bool => p v = true) rfl hv with
        ⟨rfl, -⟩ | ⟨-, hp⟩
      · -- the thread in `await_suspend` would have to hold the coroutine as well
        rcases Call.suspends_cases hc with hh | he
        · exact absurd (hi.unique t u (by rw [ht]; rfl) hh) hne
        · rw [hreturned u hne] at he
          cases he
      · exact hi.apart u v k hc hp

theorem Inv.step {a : Action Thread} (hi : Inv s) (hg : Returned s a)
    (ha : AwaitSuspend.step s a = some s') : Inv s' := by
  cases a with
  | await t kind =>
      obtain ⟨ht, ha⟩ := Option.ite_none_right_eq_some.mp ha
      obtain rfl := Option.some.inj ha
      exact hi.await ht
  | call t advice found => exact hi.continues (callStep_continues rfl ha)
  | signal t =>
      unfold AwaitSuspend.step at ha
      dsimp only at ha
      split at ha
      · next hl =>
          exact hi.continues (.of_listed hl (Option.some.inj ha).symm (fun _ => rfl) fun _ => rfl)
      · next hl =>
          exact hi.continues (.of_listed hl (Option.some.inj ha).symm (fun _ => rfl) fun _ => rfl)
      · cases ha
  | release t =>
      obtain ⟨⟨-, hl⟩, ha⟩ := Option.ite_none_right_eq_some.mp ha
      exact hi.continues (.of_listed hl (Option.some.inj ha).symm (fun _ => rfl) fun _ => rfl)
  | complete t =>
      obtain ⟨⟨-, hl, -⟩, ha⟩ := Option.ite_none_right_eq_some.mp ha
      exact hi.continues (.of_listed hl (Option.some.inj ha).symm (fun _ => rfl) fun _ => rfl)
  | cancel t =>
      obtain ⟨⟨ht, -⟩, ha⟩ := Option.ite_none_right_eq_some.mp ha
      obtain rfl := Option.some.inj ha
      exact hi.continues (.of_call rfl rfl rfl (fun _ => rfl) nofun (by rw [ht]; exact le_rfl))
  | resume t =>
      obtain ⟨⟨ht, hqueued⟩, ha⟩ := Option.ite_none_right_eq_some.mp ha
      obtain rfl := Option.some.inj ha
      refine hi.continues (.of_call rfl rfl rfl (fun _ => rfl)
        (fun k hk => .inr (of_decide_eq_true hk).symm) ?_)
      rw [ht]
      change 1 + (s.listed.isSome.toNat + (s.queued - 1)) ≤ 0 + (s.listed.isSome.toNat + s.queued)
      omega
  | pass t =>
      unfold AwaitSuspend.step at ha
      dsimp only at ha
      split at ha
      · next n ht =>
          obtain rfl := Option.some.inj ha
          have hg : s.HasReturned t (s.call t) := hg
          rw [ht] at hg
          exact hi.pass ht hg
      · cases ha
  | finish t =>
      obtain ⟨ht, ha⟩ := Option.ite_none_right_eq_some.mp ha
      obtain rfl := Option.some.inj ha
      refine hi.continues (.of_call rfl rfl rfl (fun _ => rfl) nofun ?_)
      rw [ht]
      exact Nat.add_le_add_right (Nat.zero_le _) _

theorem initial_body {u : Thread} {P : Call → Prop} (hidle : ¬ P .idle)
    (h : P ((initial t).call u)) : u = t ∧ P .body := by
  have hcall : (initial t).call = Function.update (fun _ => .idle) t .body := rfl
  rcases agent_cases (Q := P) hcall h with hbody | ⟨-, hother⟩
  · exact hbody
  · exact absurd hother hidle

theorem Inv.initial (t : Thread) : Inv (initial t) where
  elsewhere_le := Nat.zero_le _
  elsewhere_eq _ _ := rfl
  unique u v hu hv := by
    obtain ⟨rfl, -⟩ := initial_body (P := fun c => c.holds = true) nofun hu
    exact (initial_body (P := fun c => c.holds = true) nofun hv).1
  awaits_le u n hu := by
    have := (initial_body (P := fun c => c.awaits n = true) nofun hu).2
    cases this
  passed_le := nofun
  apart _ _ _ _ := nofun

omit [DecidableEq Thread] in
theorem State.suspends_of_touches {n : ℕ} {found : Bool} (h : s.touches t n found = true) :
    (s.call t).suspends n = true := by
  unfold State.touches at h
  split at h
  · next k mustSuspend pc hc =>
      rw [hc]
      exact (Bool.and_eq_true_iff.mp h).1
  · cases h

/-- Once a thread has taken the coroutine past an await, no other thread has a read or
write of the awaiter or of the coroutine left in that await's `await_suspend`. -/
theorem passed_await_untouched (hs : (system Thread).ReachWhile Returned s) : s.Untouched := by
  have hi : Inv s := by
    refine hs.invariant (I := Inv) ?_ fun s a s' h hg ha => h.step hg ha
    rintro s ⟨t, rfl⟩
    exact .initial t
  intro t u n advice found s' _ ht _ hu
  exact hi.apart t u n (State.suspends_of_touches ht) hu

instance [Fintype Thread] (s : State Thread) (u : Thread) : ∀ c, Decidable (s.HasReturned u c)
  | .onResume n => inferInstanceAs (Decidable (∀ t, t ≠ u → (s.call t).exposes n = false))
  | .idle | .body | .suspend _ _ _ | .awaitResume _ | .signal _ | .complete | .cancel _
  | .schedule => inferInstanceAs (Decidable True)

instance [Fintype Thread] (s : State Thread) (a : Action Thread) : Decidable (Returned s a) :=
  match a with
  | .pass u => inferInstanceAs (Decidable (s.HasReturned u (s.call u)))
  | .await _ _ | .call _ _ _ | .signal _ | .release _ | .complete _ | .cancel _ | .resume _
  | .finish _ => inferInstanceAs (Decidable True)

/-- The wait list is left alone until `await_suspend` has returned; then another thread
signals the event and runs the coroutine on into its next await. -/
theorem passed_await_untouched_signalled : ∃ s : State (Fin 2), (system (Fin 2)).Reach s ∧
    s.published 1 = true ∧ s.passed 1 1 = true ∧ s.touches 1 2 false = true ∧ s.Untouched := by
  obtain ⟨s, hs, hpublished, hpassed, htouches⟩ := StepSystem.Reach.exists_of_exec
    (M := (system (Fin 2)).restrict Returned)
    (P := fun s => s.published 1 = true ∧ s.passed 1 1 = true ∧ s.touches 1 2 false = true)
    (.start ⟨0, rfl⟩)
    ([.await 0 .event] ++ List.replicate 6 (.call 0 .maySuspend false) ++
      [.signal 1, .call 1 .maySuspend true, .call 1 .maySuspend true, .resume 1,
        .call 1 .maySuspend true, .pass 1, .await 1 .task]) (by decide)
  exact ⟨s, hs.reachWhile.reach, hpublished, hpassed, htouches,
    passed_await_untouched hs.reachWhile⟩

/-- The thread inside `await_suspend` comes to an access, after some steps of its own. -/
def State.WillTouch (s : State Thread) (t : Thread) (n : ℕ) : Prop :=
  ∃ as s₁ s₂, (system Thread).exec s as = some s₁ ∧ s₁.passed = s.passed ∧
    s₁.published = s.published ∧ step s₁ (.call t .maySuspend false) = some s₂ ∧
      s₁.touches t n false = true

theorem State.WillTouch.of_step {n : ℕ} {a : Action Thread} (ha : step s a = some s')
    (hp : s'.passed = s.passed) (hpublished : s'.published = s.published)
    (h : s'.WillTouch t n) : s.WillTouch t n := by
  obtain ⟨as, s₁, s₂, he, hpassed, hp₁, hstep, htouches⟩ := h
  refine ⟨a :: as, s₁, s₂, ?_, hpassed.trans hp, hp₁.trans hpublished, hstep, htouches⟩
  rw [StepSystem.exec_cons, Option.bind_eq_some_iff]
  exact ⟨s', ha, he⟩

theorem State.WillTouch.of_touches {n : ℕ} {mustSuspend : Bool} {pc : SuspendPc}
    (hc : s.call t = .suspend n mustSuspend pc) (hp : pc.touches false = true)
    (hr : pc ≠ .releaseDequeue) : s.WillTouch t n := by
  have hstep : ∃ s₂, suspendStep s t n mustSuspend .maySuspend false pc = some s₂ := by
    cases pc with
    | isZeroAgain | isCanceledAgain | arrive | resumeDequeue | drainDequeue => cases hp
    | releaseDequeue => exact absurd rfl hr
    | _ => exact ⟨_, rfl⟩
  obtain ⟨s₂, hs₂⟩ := hstep
  refine ⟨[], s, s₂, rfl, rfl, rfl, ?_, ?_⟩
  · simpa only [step, hc, callStep] using hs₂
  · simp only [State.touches, hc, hp, decide_true, Bool.and_self]

theorem State.next_call {n : ℕ} {mustSuspend : Bool} {pc : SuspendPc} :
    (s.next t n mustSuspend pc).call t = .suspend n mustSuspend pc :=
  Function.update_self _ _ _

/-- Wherever a thread is inside `await_suspend`, an access is still to come, unless
`arriveAndRelease` fails. -/
theorem willTouch_of_suspend {n : ℕ} {mustSuspend : Bool} {pc : SuspendPc}
    (hc : s.call t = .suspend n mustSuspend pc) (hr : pc ≠ .releaseDequeue) :
    s.WillTouch t n := by
  have hlast : ∀ {s : State Thread} {pc}, s.call t = .suspend n mustSuspend pc →
      suspendStep s t n mustSuspend .maySuspend false pc =
        some (s.next t n mustSuspend (.setWaitListed true)) → s.WillTouch t n := by
    intro s pc hc hstep
    have hstep : step s (.call t .maySuspend false) =
        some (s.next t n mustSuspend (.setWaitListed true)) := by
      simpa only [step, hc, callStep] using hstep
    exact .of_step hstep rfl rfl (.of_touches State.next_call rfl nofun)
  cases pc with
  | isZeroAgain | resumeDequeue | drainDequeue | arrive => exact hlast hc rfl
  | releaseDequeue => exact absurd rfl hr
  | isCanceledAgain =>
      have hstep : step s (.call t .maySuspend false) = some (s.next t n mustSuspend .arrive) := by
        simp only [step, hc, callStep, suspendStep, Bool.false_eq_true, if_false]
      exact .of_step hstep rfl rfl (hlast State.next_call rfl)
  | _ => exact .of_touches hc rfl nofun

/-- If a thread takes the coroutine past an await while the one that has published it is
inside `await_suspend`, the latter can go on to an access. -/
theorem touched_of_pass {u : Thread} {n : ℕ} {mustSuspend : Bool} {pc : SuspendPc}
    (hs : (system Thread).Reach s) (ha : step s (.pass u) = some s') (hu : s.call u = .onResume n)
    (ht : s.call t = .suspend n mustSuspend pc) (hr : pc ≠ .releaseDequeue)
    (hpublished : s.published n = true) :
    ∃ s₁, (system Thread).Reach s₁ ∧ ¬ s₁.Untouched := by
  have hne : t ≠ u := by
    rintro rfl
    rw [hu] at ht
    cases ht
  have hr' : (system Thread).Reach s' := hs.step (a := .pass u) ha
  obtain ⟨hcall, hpassed, hpublished'⟩ :
      s'.call t = s.call t ∧ s'.passed n u = true ∧ s'.published = s.published := by
    simp only [step, hu, Option.some.injEq] at ha
    subst ha
    exact ⟨Function.update_of_ne hne _ _, by simp, rfl⟩
  obtain ⟨as, s₁, s₂, he, hp₁, hpublished₁, hstep, htouches⟩ :=
    willTouch_of_suspend (hcall.trans ht) hr
  refine ⟨s₁, hr'.exec he, fun h => hne ?_⟩
  exact (h t u n _ _ s₂ hstep htouches (by rw [hpublished₁, hpublished', hpublished])
    (by rw [hp₁, hpassed])).symm

/-- Thread 0 publishes the coroutine; thread 1 signals the event, cancels the barrier or
cancels the wait for the task, and runs the coroutine past its first await; then
thread 0 goes on to its next access. -/
def overtake : Kind → List (Action (Fin 2))
  | .event =>
      [.await 0 .event] ++ List.replicate 4 (.call 0 .maySuspend false) ++
        [.signal 1, .call 1 .maySuspend true, .call 1 .maySuspend true, .resume 1,
          .call 1 .maySuspend true, .pass 1, .call 0 .maySuspend true, .call 0 .maySuspend false]
  | .value =>
      [.await 0 .value] ++ List.replicate 5 (.call 0 .maySuspend false) ++
        [.signal 1, .call 1 .maySuspend true, .call 1 .maySuspend true, .resume 1,
          .call 1 .maySuspend true, .pass 1, .call 0 .maySuspend true, .call 0 .maySuspend false]
  | .barrier =>
      [.await 0 .barrier] ++ List.replicate 5 (.call 0 .maySuspend false) ++
        [.release 1, .call 1 .maySuspend true, .resume 1,
          .call 1 .maySuspend true, .pass 1, .call 0 .maySuspend true, .call 0 .maySuspend false]
  | .task =>
      [.await 0 .task] ++ List.replicate 4 (.call 0 .maySuspend false) ++
        [.cancel 1, .call 1 .maySuspend true, .call 1 .maySuspend true, .resume 1,
          .call 1 .maySuspend true, .pass 1]

/-- None of the four awaiters is left alone by the thread that has suspended. -/
theorem passed_await_touched :
    ¬ ∃ kind, ∀ s : State (Fin 2), (system (Fin 2)).Reach s → s.kind 1 = kind → s.Untouched := by
  rintro ⟨kind, h⟩
  obtain ⟨s, hs, hkind, hpublished, hpassed, hstep, htouches⟩ := StepSystem.Reach.exists_of_exec
    (M := system (Fin 2))
    (P := fun s => s.kind 1 = kind ∧ s.published 1 = true ∧ s.passed 1 1 = true ∧
      (step s (.call 0 .maySuspend false)).isSome = true ∧ s.touches 0 1 false = true)
    (.start ⟨0, rfl⟩) (overtake kind) (by cases kind <;> decide)
  obtain ⟨s', hs'⟩ := Option.isSome_iff_exists.mp hstep
  have := h s hs hkind 0 1 1 _ _ s' hs' htouches hpublished hpassed
  cases this

end LevelzAsync.AwaitSuspend
