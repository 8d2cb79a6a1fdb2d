import LevelzAsync.OwnershipTree

/-!
# Every coroutine completes when the bodies are over

A completed-state task waits until the coroutines that its coroutine owns have completed.
Where nobody is given an owner that it owns itself, the owner words have no cycle, so
among the coroutines that have not completed there is always one that owns none of them,
and nothing keeps it from going on. Every call and every completion has finitely many
steps. A `SyncTask` sets its event on the way, which releases the thread that is blocked in
`get`; its completed-state task asserts that it has no owner, so the coroutines that other
coroutines create and own are taken to be of the other kinds.
-/

namespace LevelzAsync.Ownership

variable {Thread Co : Type*}

def Call.rank : Call Co → ℕ
  | isZero _ _ => 9
  | countUp _ _ => 8
  | countUpOwner _ _ => 7
  | exchange _ _ => 6
  | countDownOld _ _ => 5
  | countDownSelf _ => 4
  | checkZero _ | alreadyCompleted _ => 3
  | signalExchange _ => 2
  | signalCountDown _ _ => 1
  | idle => 0

def Stage.rank : Stage Co → ℕ
  | countCheck => 7
  | enqueueCompletedState => 6
  | countDown => 5
  | waiting | setEvent => 4
  | setEventLate | countDownLast => 3
  | signalExchange => 2
  | signalCountDown _ => 1
  | _ => 0

/-- The coroutine has finished, and has not completed yet. -/
def Stage.isCompleting (p : Stage Co) : Prop := 0 < p.rank

/-- The final awaiter or the completed-state task has set the event of a `SyncTask`. -/
def Stage.isPastEvent : Stage Co → Bool
  | countDownLast | signalExchange | signalCountDown _ | completed => true
  | _ => false

/-- No body runs, or is about to. -/
def State.bodiesOver (s : State Thread Co) : Prop :=
  ∀ c, s.stage c ≠ .starting ∧ s.stage c ≠ .running

/-- The step goes on with a call or with a completion. -/
def Action.continues : Action Thread Co → Prop
  | .call _ | .completion _ => True
  | _ => False

/-- No coroutine is given an owner that it owns itself. A `SyncTask` is created by no
coroutine, its owner is not set, and it is not destroyed while it is suspended. -/
def keepsForest [DecidableEq Co] (isSyncTask : Co → Bool) (s : State Thread Co) :
    Action Thread Co → Prop
  | .call a =>
      match s.call a with
      | .exchange c (some r) => ¬s.owns c r
      | _ => True
  | .create _ c | .setOwner _ c _ | .discard c => isSyncTask c = false
  | _ => True

/-- The assertions that the next step of a call or of a completion makes: that a count is
not zero before it goes down or is waited for, and those of a `SyncTask` in its final
awaiter and its completed-state task. -/
def State.asserted (isSyncTask : Co → Bool) (s : State Thread Co) : Action Thread Co → Prop
  | .call a =>
      match s.call a with
      | .countUpOwner _ o | .signalCountDown _ o => s.count o ≠ 0
      | _ => True
  | .completion c =>
      match s.stage c with
      | .enqueueCompletedState => s.count c ≠ 0
      | .countDownLast => isSyncTask c = true → countDown (s.count c) = 0
      | .setEventLate => isSyncTask c = true → s.owner c = none
      | .signalCountDown o => s.count o ≠ 0
      | _ => True
  | _ => True

structure Forest (isSyncTask : Co → Bool) (s : State Thread Co) : Prop where
  noCycle : NoCycle s.owner
  noOwner : ∀ c, s.stage c = .absent → s.owner c = none
  noTarget : ∀ c, s.stage c = .absent → ∀ a, (s.call a).target ≠ some c
  unowned : ∀ c, isSyncTask c = true → s.owner c = none
  untouched : ∀ c, isSyncTask c = true → ∀ a, (s.call a).target ≠ some c
  event : ∀ c, isSyncTask c = true → (s.stage c).isPastEvent = true → s.eventSet c = true

variable [DecidableEq Co] [Fintype Thread] [Fintype Co]

section Steps

variable [DecidableEq Thread] {isSyncTask : Co → Bool} {c : Co} {s s' : State Thread Co}
  {a : Agent Thread Co}

omit [Fintype Thread] [Fintype Co] in
theorem callStep_rank (ha : callStep s a (s.call a) = some s') :
    s'.stage = s.stage ∧ ∃ p, s'.call = Function.update s.call a p ∧
      p.rank < (s.call a).rank ∧ (p.target = none ∨ p.target = (s.call a).target) := by
  cases hp : s.call a <;> simp only [hp, callStep, reduceCtorEq] at ha <;> cases ha
  case isZero c newOwner =>
    refine ⟨rfl, _, rfl, ?_⟩
    split_ifs
    · exact ⟨Nat.succ_pos 8, .inl rfl⟩
    · exact ⟨Nat.lt_succ_self 8, .inr rfl⟩
  case countUp c newOwner =>
    refine ⟨rfl, _, rfl, ?_⟩
    split_ifs
    · exact ⟨Nat.le_of_ble_eq_true rfl, .inr rfl⟩
    · cases newOwner with
      | none => exact ⟨Nat.le_of_ble_eq_true rfl, .inr rfl⟩
      | some r => exact ⟨Nat.le_of_ble_eq_true rfl, .inr rfl⟩
  case exchange c newOwner =>
    refine ⟨rfl, _, rfl, ?_⟩
    cases s.owner c with
    | none => exact ⟨Nat.le_of_ble_eq_true rfl, .inr rfl⟩
    | some r => exact ⟨Nat.le_of_ble_eq_true rfl, .inr rfl⟩
  case checkZero c =>
    refine ⟨rfl, _, rfl, ?_⟩
    split_ifs
    · exact ⟨Nat.le_of_ble_eq_true rfl, .inr rfl⟩
    · exact ⟨Nat.le_of_ble_eq_true rfl, .inl rfl⟩
  case signalExchange c =>
    refine ⟨rfl, _, rfl, ?_⟩
    cases s.owner c with
    | none => exact ⟨Nat.le_of_ble_eq_true rfl, .inl rfl⟩
    | some r => exact ⟨Nat.le_of_ble_eq_true rfl, .inr rfl⟩
  case signalCountDown c r => exact ⟨rfl, _, rfl, Nat.le_of_ble_eq_true rfl, .inl rfl⟩
  all_goals exact ⟨rfl, _, rfl, Nat.le_of_ble_eq_true rfl, .inr rfl⟩

omit [DecidableEq Co] [DecidableEq Thread] [Fintype Thread] [Fintype Co] in
theorem Stage.ne_of_hasStopped {p q : Stage Co} (hp : p.hasStopped = true)
    (hq : q.hasStopped = false) : p ≠ q := by
  rintro rfl
  cases hp.symm.trans hq

omit [Fintype Thread] [Fintype Co] [DecidableEq Thread] in
theorem completionStep_rank (ha : completionStep s c (s.stage c) = some s') :
    s'.call = s.call ∧ ∃ p, s'.stage = Function.update s.stage c p ∧
      p.rank < (s.stage c).rank ∧ p.hasStopped = true ∧
      (p.isPastEvent = true → (s.stage c).isPastEvent = true ∨ s'.eventSet c = true) := by
  cases hp : s.stage c <;> simp only [hp, completionStep, reduceCtorEq] at ha
  case countCheck =>
    cases ha
    refine ⟨rfl, _, rfl, ?_⟩
    split_ifs
    · exact ⟨Nat.le_of_ble_eq_true rfl, rfl, fun hpast => absurd hpast Bool.false_ne_true⟩
    · exact ⟨Nat.le_of_ble_eq_true rfl, rfl, fun hpast => absurd hpast Bool.false_ne_true⟩
  case waiting =>
    obtain ⟨-, ha⟩ := Option.ite_none_right_eq_some.mp ha
    cases ha
    exact ⟨rfl, _, rfl, Nat.le_of_ble_eq_true rfl, rfl,
      fun hpast => absurd hpast Bool.false_ne_true⟩
  case setEvent | setEventLate =>
    cases ha
    exact ⟨rfl, _, rfl, Nat.le_of_ble_eq_true rfl, rfl, fun _ => .inr (Function.update_self ..)⟩
  case signalExchange =>
    cases ha
    refine ⟨rfl, _, rfl, ?_⟩
    cases s.owner c with
    | none => exact ⟨Nat.le_of_ble_eq_true rfl, rfl, fun _ => .inl rfl⟩
    | some r => exact ⟨Nat.le_of_ble_eq_true rfl, rfl, fun _ => .inl rfl⟩
  case enqueueCompletedState | countDown =>
    cases ha
    exact ⟨rfl, _, rfl, Nat.le_of_ble_eq_true rfl, rfl,
      fun hpast => absurd hpast Bool.false_ne_true⟩
  case countDownLast | signalCountDown =>
    cases ha
    exact ⟨rfl, _, rfl, Nat.le_of_ble_eq_true rfl, rfl, fun _ => .inl rfl⟩

omit [Fintype Thread] [Fintype Co] in
theorem callStep_owner_of_ne (ha : callStep s a (s.call a) = some s')
    (hc : (s.call a).target ≠ some c) : s'.owner c = s.owner c := by
  obtain ⟨-, -, howner⟩ := callStep_owner ha
  have hne : ∀ d, (s.call a).target = some d → c ≠ d := by
    rintro d hd rfl
    exact hc hd
  rcases howner with he | ⟨d, v, hp, he⟩ | ⟨d, hp, he⟩
  · rw [he]
  · rw [he, Function.update_of_ne (hne d (by rw [hp]; rfl))]
  · rw [he, Function.update_of_ne (hne d (by rw [hp]; rfl))]

omit [Fintype Thread] [Fintype Co] in
theorem callStep_target (ha : callStep s a (s.call a) = some s')
    (hc : ∀ b, (s.call b).target ≠ some c) (b : Agent Thread Co) :
    (s'.call b).target ≠ some c := by
  obtain ⟨-, p, hcall, -, htarget⟩ := callStep_rank ha
  intro hb
  rcases agent_cases (Q := fun p => p.target = some c) hcall hb with ⟨-, hp⟩ | ⟨-, hb⟩
  · rcases htarget with hnone | hsame
    · rw [hnone] at hp
      cases hp
    · exact hc a (hsame ▸ hp)
  · exact hc b hb

omit [Fintype Thread] [Fintype Co] in
theorem Forest.call_step (hf : Forest isSyncTask s) (hg : keepsForest isSyncTask s (.call a))
    (ha : callStep s a (s.call a) = some s') : Forest isSyncTask s' := by
  obtain ⟨hstage, -⟩ := callStep_rank ha
  obtain ⟨-, hevent, howner⟩ := callStep_owner ha
  refine ⟨?_, fun c hc => ?_, fun c hc => ?_, fun c hc => ?_, fun c hc => ?_, ?_⟩
  · rcases howner with he | ⟨c, v, hp, he⟩ | ⟨c, -, he⟩
    · exact he ▸ hf.noCycle
    · rw [he]
      refine hf.noCycle.update fun r hr => ?_
      subst hr
      simp only [keepsForest, hp] at hg
      exact hg
    · rw [he]
      exact hf.noCycle.update nofun
  · rw [hstage] at hc
    rw [callStep_owner_of_ne ha (hf.noTarget c hc a)]
    exact hf.noOwner c hc
  · rw [hstage] at hc
    exact callStep_target ha (hf.noTarget c hc)
  · rw [callStep_owner_of_ne ha (hf.untouched c hc a)]
    exact hf.unowned c hc
  · exact callStep_target ha (hf.untouched c hc)
  · rw [hstage, hevent]
    exact hf.event

omit [Fintype Thread] [Fintype Co] [DecidableEq Thread] in
theorem Forest.goStage {p : Stage Co} (hf : Forest isSyncTask s) (hcall : s'.call = s.call)
    (hstage : s'.stage = Function.update s.stage c p)
    (howner : s'.owner = s.owner ∨ s'.owner = Function.update s.owner c none)
    (hevent : ∀ d, s.eventSet d = true → s'.eventSet d = true)
    (hpast : isSyncTask c = true → p.isPastEvent = true → s'.eventSet c = true)
    (hp : p ≠ .absent) : Forest isSyncTask s' := by
  have habsent : ∀ d, s'.stage d = .absent → s.stage d = .absent := by
    intro d hd
    rw [hstage] at hd
    by_cases hdc : d = c
    · subst hdc
      rw [Function.update_self] at hd
      exact absurd hd hp
    · rwa [Function.update_of_ne hdc] at hd
  have hnone : ∀ d, s.owner d = none → s'.owner d = none := by
    intro d hd
    rcases howner with he | he
    · rwa [he]
    · rw [he, Function.update_apply, hd, ite_self]
  refine ⟨?_, fun d hd => hnone d (hf.noOwner d (habsent d hd)), fun d hd => ?_,
    fun d hd => hnone d (hf.unowned d hd), by rw [hcall]; exact hf.untouched, fun d hs hd => ?_⟩
  · rcases howner with he | he
    · exact he ▸ hf.noCycle
    · rw [he]
      exact hf.noCycle.update nofun
  · rw [hcall]
    exact hf.noTarget d (habsent d hd)
  · rw [hstage] at hd
    by_cases hdc : d = c
    · subst hdc
      rw [Function.update_self] at hd
      exact hpast hs hd
    · rw [Function.update_of_ne hdc] at hd
      exact hevent d (hf.event d hs hd)

omit [Fintype Thread] [Fintype Co] in
theorem Forest.beginCall {p : Call Co} (hf : Forest isSyncTask s) (hp : p.target = some c)
    (hc : s.stage c ≠ .absent) (hsync : isSyncTask c = false) :
    Forest isSyncTask (s.goCall a p) := by
  have htarget : ∀ d b, d ≠ c → (∀ b, (s.call b).target ≠ some d) →
      ((s.goCall a p).call b).target ≠ some d := by
    intro d b hdc hd hb
    rcases agent_cases (Q := fun p : Call Co => p.target = some d) rfl hb with ⟨-, hb⟩ | ⟨-, hb⟩
    · exact hdc (Option.some.inj (hb.symm.trans hp))
    · exact hd b hb
  refine ⟨hf.noCycle, hf.noOwner, fun d hd b => ?_, hf.unowned, fun d hd b => ?_, hf.event⟩
  · exact htarget d b (fun h => hc (h ▸ hd)) (hf.noTarget d hd)
  · refine htarget d b (fun h => ?_) (hf.untouched d hd)
    rw [h, hsync] at hd
    cases hd

theorem Forest.step {a : Action Thread Co} (hf : Forest isSyncTask s)
    (hg : keepsForest isSyncTask s a) (ha : step s a = some s') : Forest isSyncTask s' := by
  cases a with
  | create r c =>
      obtain ⟨-, ha⟩ := Option.ite_none_right_eq_some.mp ha
      cases ha
      have hstage : (s.goStage c .starting).stage c ≠ .absent := by
        change Function.update s.stage c .starting c ≠ .absent
        rw [Function.update_self]
        nofun
      have hstarting : Forest isSyncTask (s.goStage c .starting) :=
        hf.goStage rfl rfl (.inl rfl) (fun _ => id) (fun _ => nofun) nofun
      have hf' := hstarting.beginCall (a := .inl r) (p := .isZero c (some r)) rfl hstage hg
      exact ⟨hf'.noCycle, hf'.noOwner, hf'.noTarget, hf'.unowned, hf'.untouched, hf'.event⟩
  | start c =>
      obtain ⟨-, ha⟩ := Option.ite_none_right_eq_some.mp ha
      cases ha
      exact hf.goStage rfl rfl (.inl rfl) (fun _ => id) (fun _ => nofun) nofun
  | setOwner a c clear =>
      obtain ⟨⟨-, hc, -⟩, ha⟩ := Option.ite_none_right_eq_some.mp ha
      cases a with
      | inl r =>
          obtain ⟨-, ha⟩ := Option.ite_none_right_eq_some.mp ha
          cases ha
          exact hf.beginCall rfl hc hg
      | inr t =>
          obtain ⟨-, ha⟩ := Option.ite_none_right_eq_some.mp ha
          cases ha
          exact hf.beginCall rfl hc hg
  | call a => exact hf.call_step hg ha
  | finish r =>
      obtain ⟨-, ha⟩ := Option.ite_none_right_eq_some.mp ha
      cases ha
      exact hf.goStage rfl rfl (.inl rfl) (fun _ => id) (fun _ => nofun) nofun
  | discard c =>
      obtain ⟨-, ha⟩ := Option.ite_none_right_eq_some.mp ha
      cases ha
      have hsync : isSyncTask c = false := hg
      refine hf.goStage rfl rfl (.inl rfl) (fun _ => id) (fun hs => ?_) nofun
      rw [hsync] at hs
      cases hs
  | completion c =>
      obtain ⟨hcall, p, hstage, -, hstopped, hpast⟩ := completionStep_rank ha
      obtain ⟨-, hevent, howner⟩ := completionStep_owner ha
      have hkeeps : ∀ d, s.eventSet d = true → s'.eventSet d = true := by
        intro d h
        rcases hevent with he | ⟨he, -⟩
        · rwa [he]
        · rw [he, Function.update_apply, h, ite_self]
      refine hf.goStage hcall hstage (howner.imp_right And.right) hkeeps (fun hs hp => ?_)
        (Stage.ne_of_hasStopped hstopped rfl)
      rcases hpast hp with hpast | hset
      · exact hkeeps c (hf.event c hs hpast)
      · exact hset

omit [Fintype Thread] [Fintype Co] [DecidableEq Thread] [DecidableEq Co] in
theorem forest_initial (isRoot : Co → Bool) :
    Forest isSyncTask (initial isRoot : State Thread Co) := by
  refine ⟨fun _ _ h => (nomatch h), fun _ _ => rfl, fun _ _ _ => nofun, fun _ _ => rfl,
    fun _ _ _ => nofun, fun c _ h => ?_⟩
  dsimp only [initial] at h
  split_ifs at h <;> cases h

/-! ## Few coroutines have few units -/

omit [DecidableEq Thread] [DecidableEq Co] [Fintype Thread] [Fintype Co] in
theorem sum_unit_le {ι : Type*} [Fintype ι] [DecidableEq Co] (f : ι → Option Co) (o : Co) :
    ∑ i, unit (f i) o ≤ Fintype.card ι := by
  have hle : ∀ i ∈ Finset.univ, unit (f i) o ≤ 1 := by
    intro i _
    unfold unit
    split_ifs
    · exact le_rfl
    · exact Nat.zero_le 1
  exact (Finset.sum_le_card_nsmul _ _ 1 hle).trans_eq (by simp)

omit [DecidableEq Thread] in
theorem Inv.count_le (hi : Inv s) (o : Co) :
    s.count o ≤ 4 * Fintype.card Co + 2 * Fintype.card Thread + 1 := by
  have hown : (s.stage o).own ≤ 1 := by
    cases s.stage o <;> simp [Stage.own]
  have howners := sum_unit_le s.owner o
  have hcalls := sum_unit_le (fun a => (s.call a).owes) o
  have hstages := sum_unit_le (fun c => (s.stage c).owes) o
  have hself := sum_unit_le (fun a => (s.call a).self) o
  rw [Fintype.card_sum] at hcalls hself
  rw [hi.balance, State.childUnits, State.selfUnits]
  omega

/-- Finitely many coroutines and threads never bring a count near `INT_MAX`. -/
theorem forest_of_reachWhile
    (hfew : 4 * Fintype.card Co + 2 * Fintype.card Thread + 1 < maxCount)
    (hs : (system Thread Co).ReachWhile (keepsForest isSyncTask) s) :
    Inv s ∧ Forest isSyncTask s := by
  refine hs.invariant (I := fun s => Inv s ∧ Forest isSyncTask s) (fun s h => ?_)
    fun s a s' ⟨hi, hf⟩ hg ha =>
      ⟨hi.step (fun o => (hi.count_le o).trans_lt hfew) ha, hf.step hg ha⟩
  obtain ⟨isRoot, rfl⟩ := h
  exact ⟨inv_initial isRoot, forest_initial isRoot⟩

/-! ## Nothing waits for ever -/

def State.rank (s : State Thread Co) : ℕ := ∑ a, (s.call a).rank + ∑ c, (s.stage c).rank

/-- Nobody is inside a call, and every coroutine that exists has completed. -/
structure State.IsOver (s : State Thread Co) : Prop where
  calls : ∀ a, s.call a = .idle
  stages : ∀ c, s.stage c = .absent ∨ s.stage c = .completed

omit [Fintype Thread] [Fintype Co] in
theorem callStep_isSome (h : s.call a ≠ .idle) : ∃ s', callStep s a (s.call a) = some s' := by
  cases hp : s.call a with
  | idle => exact absurd hp h
  | _ => exact ⟨_, rfl⟩

omit [Fintype Thread] [Fintype Co] [DecidableEq Thread] in
theorem completionStep_isSome (h : (s.stage c).isCompleting)
    (hwaiting : s.stage c = .waiting → s.count c = 0) :
    ∃ s', completionStep s c (s.stage c) = some s' := by
  cases hp : s.stage c with rw [hp] at h
  | absent | starting | running | completed => exact absurd h (Nat.lt_irrefl 0)
  | waiting => exact ⟨_, if_pos (hwaiting hp)⟩
  | _ => exact ⟨_, rfl⟩

omit [Fintype Thread] [Fintype Co] [DecidableEq Thread] [DecidableEq Co] in
theorem State.bodiesOver.over (hover : s.bodiesOver) (hc : ¬(s.stage c).isCompleting) :
    s.stage c = .absent ∨ s.stage c = .completed := by
  obtain ⟨hstarting, hrunning⟩ := hover c
  cases hp : s.stage c with rw [hp] at hc
  | absent => exact .inl rfl
  | completed => exact .inr rfl
  | starting => exact absurd hp hstarting
  | running => exact absurd hp hrunning
  | _ => exact absurd (Nat.succ_pos _) hc

omit [DecidableEq Thread] in
theorem Inv.owner_eq_none (hi : Inv s) (hf : Forest isSyncTask s) (hcalls : ∀ a, s.call a = .idle)
    (hc : s.stage c = .absent ∨ s.stage c = .completed) : s.owner c = none := by
  rcases hc with hc | hc
  · exact hf.noOwner c hc
  · by_contra howner
    obtain ⟨a, ha⟩ := hi.signalled c (by rw [hc]; rfl) howner
    rw [hcalls a] at ha
    cases ha

omit [DecidableEq Thread] in
/-- A coroutine that owns nobody who is still completing can go on. -/
theorem Inv.completion_next (hi : Inv s) (hf : Forest isSyncTask s) (hcalls : ∀ a, s.call a = .idle)
    (hover : s.bodiesOver) (hc : (s.stage c).isCompleting)
    (howned : ∀ d, s.owner d = some c → ¬(s.stage d).isCompleting) :
    ∃ d s', completionStep s d (s.stage d) = some s' := by
  by_cases howes : ∃ d, (s.stage d).owes = some c
  · obtain ⟨d, hd⟩ := howes
    cases hp : s.stage d with rw [hp] at hd
    | signalCountDown owner => exact ⟨d, _, by rw [hp]; rfl⟩
    | _ => cases hd
  refine ⟨c, completionStep_isSome hc fun hwaiting => ?_⟩
  have hself : s.selfUnits c = 0 := by
    refine Finset.sum_eq_zero fun a _ => ?_
    rw [hcalls a]
    rfl
  have howners : ∑ d, unit (s.owner d) c = 0 := by
    refine Finset.sum_eq_zero fun d _ => ?_
    refine if_neg fun hd => ?_
    rw [hi.owner_eq_none hf hcalls (hover.over (howned d hd))] at hd
    cases hd
  have howing : ∑ a, unit (s.call a).owes c = 0 := by
    refine Finset.sum_eq_zero fun a _ => ?_
    rw [hcalls a]
    rfl
  have hstages : ∑ d, unit (s.stage d).owes c = 0 :=
    Finset.sum_eq_zero fun d _ => if_neg fun hd => howes ⟨d, hd⟩
  rw [hi.balance, State.childUnits, hself, howners, howing, hstages, hwaiting]
  rfl

theorem Inv.next (hi : Inv s) (hf : Forest isSyncTask s) (hover : s.bodiesOver) (hnot : ¬s.IsOver) :
    ∃ b s', Action.continues b ∧ (system Thread Co).step s b = some s' := by
  by_cases hcalls : ∀ a, s.call a = .idle
  · by_cases hc : ∃ c, (s.stage c).isCompleting
    · obtain ⟨c, hc, hfirst⟩ := hf.noCycle.exists_first hc
      obtain ⟨d, s', ha⟩ := hi.completion_next hf hcalls hover hc hfirst
      exact ⟨.completion d, s', trivial, ha⟩
    · exact absurd ⟨hcalls, fun c => hover.over fun h => hc ⟨c, h⟩⟩ hnot
  · obtain ⟨a, ha⟩ := not_forall.mp hcalls
    obtain ⟨s', ha⟩ := callStep_isSome ha
    exact ⟨.call a, s', trivial, ha⟩

/-- Every step leaves fewer steps to make, and brings no body back. -/
theorem rank_lt_of_continues {b : Action Thread Co} (hb : b.continues) (ha : step s b = some s') :
    s'.rank < s.rank ∧ (s.bodiesOver → s'.bodiesOver) ∧
      ∀ d, s.stage d ≠ .absent → s'.stage d ≠ .absent := by
  cases b with
  | call a =>
      obtain ⟨hstage, p, hcall, hlt, -⟩ := callStep_rank ha
      have hsum := sum_update_tally s.call Call.rank a p
      unfold State.rank State.bodiesOver
      rw [hstage, hcall]
      exact ⟨by omega, id, fun _ => id⟩
  | completion c =>
      obtain ⟨hcall, p, hstage, hlt, hstopped, -⟩ := completionStep_rank ha
      have hsum := sum_update_tally s.stage Stage.rank c p
      unfold State.rank State.bodiesOver
      rw [hstage, hcall]
      refine ⟨by omega, fun hover d => ?_, fun d hd => ?_⟩
      · rw [Function.update_apply]
        split_ifs
        · exact ⟨Stage.ne_of_hasStopped hstopped rfl, Stage.ne_of_hasStopped hstopped rfl⟩
        · exact hover d
      · rw [Function.update_apply]
        split_ifs
        · exact Stage.ne_of_hasStopped hstopped rfl
        · exact hd
  | _ => cases hb

omit [DecidableEq Thread] in
/-- Without bodies nobody is given an owner. -/
theorem Inv.keepsForest_of_bodiesOver (hi : Inv s) (hover : s.bodiesOver) {b : Action Thread Co}
    (hb : b.continues) : keepsForest isSyncTask s b := by
  cases b with
  | call a =>
      unfold keepsForest
      dsimp only
      split
      · next c r hp => exact absurd (hi.bodies a r (by rw [hp]; rfl)).2 (hover r).2
      · trivial
  | completion c => trivial
  | _ => cases hb

omit [DecidableEq Thread] in
theorem Inv.count_of_isOver (hi : Inv s) (hover : s.IsOver) (hc : s.stage c = .completed) :
    s.count c = 0 ∧ s.owner c = none := by
  have hnone : ∀ a, (s.call a).watches ≠ some c := by
    intro a ha
    rw [hover.calls a] at ha
    cases ha
  constructor
  · by_contra hcount
    obtain ⟨a, ha⟩ := hi.exists_self (by rw [hc]; rfl) hcount
    exact hnone a (Call.watches_of_self ha)
  · by_contra howner
    obtain ⟨a, ha⟩ := hi.signalled c (by rw [hc]; rfl) howner
    exact hnone a ha

omit [DecidableEq Thread] in
theorem Inv.asserted (hi : Inv s) (hf : Forest isSyncTask s) (b : Action Thread Co) :
    s.asserted isSyncTask b := by
  cases b with
  | call a =>
      unfold State.asserted
      dsimp only
      split
      · next c o hp =>
          have hrunning := (hi.bodies a o (by rw [hp]; rfl)).2
          exact (hi.count_pos_of_own (by rw [hrunning]; rfl)).ne'
      · next c o hp => exact (hi.count_pos_of_owes (by rw [hp]; rfl)).ne'
      · trivial
  | completion c =>
      unfold State.asserted
      dsimp only
      split
      · next hp => exact (hi.count_pos_of_own (by rw [hp]; rfl)).ne'
      · next hp =>
          intro hs
          have hself : s.selfUnits c = 0 := Finset.sum_eq_zero fun a _ => if_neg fun h =>
            hf.untouched c hs a (Call.target_of_watches (Call.watches_of_self h))
          rw [hi.balance, hi.childless c (by rw [hp]; rfl), hself, hp]
          rfl
      · exact hf.unowned c
      · next o hp => exact (hi.count_pos_of_stage (by rw [hp]; rfl)).ne'
      · trivial
  | _ => trivial

/-- The end of a run: what is left are the calls and the completions of the coroutines that
exist in `s₀`. -/
structure Ending (isSyncTask : Co → Bool) (s₀ s : State Thread Co) : Prop where
  inv : Inv s
  forest : Forest isSyncTask s
  bodies : s.bodiesOver
  exist : ∀ c, s₀.stage c ≠ .absent → s.stage c ≠ .absent

theorem Ending.step {s₀ : State Thread Co} {b : Action Thread Co}
    (hfew : 4 * Fintype.card Co + 2 * Fintype.card Thread + 1 < maxCount)
    (h : Ending isSyncTask s₀ s) (hb : b.continues) (ha : step s b = some s') :
    Ending isSyncTask s₀ s' := by
  obtain ⟨-, hover, hexist⟩ := rank_lt_of_continues hb ha
  exact
    { inv := h.inv.step (fun o => (h.inv.count_le o).trans_lt hfew) ha
      forest := h.forest.step (h.inv.keepsForest_of_bodiesOver h.bodies hb) ha
      bodies := hover h.bodies
      exist := fun c hc => hexist c (h.exist c hc) }

omit [DecidableEq Thread] in
theorem Ending.completed {s₀ : State Thread Co} (h : Ending isSyncTask s₀ s) (hover : s.IsOver)
    (hc : s₀.stage c ≠ .absent) : s.stage c = .completed :=
  (hover.stages c).resolve_left (h.exist c hc)

/-- In every run in which no coroutine is given an owner that it owns itself and no
`SyncTask` an owner at all, the assertions about counts and owners hold, and once no body
runs any more, all that can happen leads to a state in which every coroutine that was
created has completed, with no unit on its count and no owner, and the event of every
`SyncTask` is set. -/
theorem syncTask_event_is_set
    (hfew : 4 * Fintype.card Co + 2 * Fintype.card Thread + 1 < maxCount)
    (hs : (system Thread Co).ReachWhile (keepsForest isSyncTask) s) :
    (∀ a, s.asserted isSyncTask a) ∧
      (s.bodiesOver → (system Thread Co).Inevitable Action.continues (fun s' =>
        ∀ c, s.stage c ≠ .absent → s'.stage c = .completed ∧ s'.count c = 0 ∧
          s'.owner c = none ∧ (isSyncTask c = true → s'.eventSet c = true)) s) := by
  obtain ⟨hi, hf⟩ := forest_of_reachWhile hfew hs
  refine ⟨hi.asserted hf, fun hover => ?_⟩
  have hend : ∀ s', Ending isSyncTask s s' → s'.IsOver → ∀ c, s.stage c ≠ .absent →
      s'.stage c = .completed ∧ s'.count c = 0 ∧ s'.owner c = none ∧
        (isSyncTask c = true → s'.eventSet c = true) := by
    intro s' h hover' c hc
    have hcompleted := h.completed hover' hc
    obtain ⟨hcount, howner⟩ := h.inv.count_of_isOver hover' hcompleted
    exact ⟨hcompleted, hcount, howner, fun hsync => h.forest.event c hsync
      (by rw [hcompleted]; rfl)⟩
  have hstart : Ending isSyncTask s s := ⟨hi, hf, hover, fun _ => id⟩
  exact StepSystem.inevitable_at_rest State.rank
    (fun s' h hnot => h.inv.next h.forest h.bodies hnot)
    (fun s₁ b s₂ h hb ha => ⟨h.step hfew hb ha, (rank_lt_of_continues hb ha).1⟩) hend hstart

end Steps

/-- `keepsForest`, where at most `n` owner words are followed. -/
def keepsForestWithin (isSyncTask : Co → Bool) (n : ℕ) (s : State Thread Co) :
    Action Thread Co → Bool
  | .call a =>
      match s.call a with
      | .exchange c (some r) => endsWithin s.owner c n r
      | _ => true
  | .create _ c | .setOwner _ c _ | .discard c => !isSyncTask c
  | _ => true

omit [Fintype Thread] [Fintype Co] in
theorem keepsForest_of_keepsForestWithin {isSyncTask : Co → Bool} {n : ℕ} {s : State Thread Co}
    {a : Action Thread Co} (h : keepsForestWithin isSyncTask n s a = true) :
    keepsForest isSyncTask s a := by
  cases a with
  | call a =>
      unfold keepsForestWithin at h
      unfold keepsForest
      dsimp only at h ⊢
      split
      · next c r hp =>
          rw [hp] at h
          exact not_leadsTo_of_endsWithin h
      · trivial
  | create _ c | setOwner _ c _ | discard c =>
      simpa [keepsForestWithin, keepsForest] using h
  | _ => trivial

/-- The body of a `SyncTask` returns before that of the child that it created, so the
`SyncTask` has to wait for the child. -/
theorem syncTask_event_is_set_waiting :
    ∃ s : State (Fin 1) (Fin 2), s.stage 0 = .waiting ∧ s.stage 1 = .countCheck ∧
      (system (Fin 1) (Fin 2)).Inevitable Action.continues (fun s' =>
        ∀ c, s.stage c ≠ .absent → s'.stage c = .completed ∧ s'.count c = 0 ∧
          s'.owner c = none ∧ (decide (c = 0) = true → s'.eventSet c = true)) s := by
  let M := (system (Fin 1) (Fin 2)).restrict fun s a =>
    keepsForestWithin (fun c => decide (c = 0)) 2 s a = true
  obtain ⟨s, hr, hsync, hchild⟩ := StepSystem.Reach.exists_of_exec (M := M)
    (P := fun s => s.stage 0 = .waiting ∧ s.stage 1 = .countCheck)
    (s := initial fun c => c = 0) (.start ⟨_, rfl⟩)
    (.create 0 1 :: List.replicate 6 (.call (.inl 0)) ++ .start 1 :: .finish 0 ::
      List.replicate 3 (.completion 0) ++ [.finish 1]) (by decide)
  refine ⟨s, hsync, hchild, (syncTask_event_is_set (by decide)
    (hr.reachWhile.mono fun _ _ => keepsForest_of_keepsForestWithin)).2 ?_⟩
  rw [State.bodiesOver, Fin.forall_fin_two, hsync, hchild]
  exact ⟨⟨nofun, nofun⟩, nofun, nofun⟩

end LevelzAsync.Ownership
