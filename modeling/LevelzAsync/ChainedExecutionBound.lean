import LevelzAsync.ChainedExecution
import LevelzAsync.PoolAffinityInvariant

/-!
# How long a chain of resumptions gets

The allowance is looked at in `onReady` and `onSuspend`, and used up two member
functions later, in `onResume`. Between them the call draws on it: its advice was
not `shouldSuspend`, so the allowance was positive, and nothing on the thread uses
it up meanwhile, because a call that `ThreadPool::yield` makes has a chain of its
own and the creation of a coroutine resumes nothing. An awaiter breaks this when it
goes on although its advice was `shouldSuspend`, which a task awaiter does on a
task that is done.
-/

namespace LevelzAsync.PoolAffinity

open CoroutineStatus

/-- The call goes on to `onResume`, here or in a coroutine that it hands over to, without
another look at the allowance. -/
def Stage.draws {C : Type*} : Stage C → Prop
  | .ready _ | .suspending _ | .body => False
  | .advised a advice => a.kind ≠ .final ∧ advice ≠ .shouldSuspend
  | .suspended a advice =>
      advice = .maySuspend ∨ advice = .shouldNotSuspend ∧ a.kind ≠ .final
  | .marked _ advice => advice ≠ .shouldSuspend
  | .resuming _ | .resumed | .paused => True

def Chain.Sound (chain : Chain) : Prop :=
  0 ≤ chain.allowance ∧ chain.allowance + chain.recorded ≤ maxChainedExecutionAllowance

/-- The chains of a thread cover the draws of the calls on its stack. A call that no
`ThreadPool::yield` has made is the creation of a coroutine or at the bottom. -/
def Backed {C : Type*} : Chain → List Chain → List (Frame C) → Prop
  | chain, interrupted, [] => chain.Sound ∧ interrupted = []
  | chain, interrupted, f :: rest =>
      chain.Sound ∧ (f.stage.needsPool → f.stage.draws → 0 < chain.allowance) ∧
        match f.restores with
        | none => (f.stage.needsPool → rest = []) ∧ Backed chain interrupted rest
        | some _ => ∃ c cs, interrupted = c :: cs ∧ Backed c cs rest

section Chains

variable {C : Type*} {chain : Chain} {interrupted : List Chain} {f : Frame C}
  {rest : List (Frame C)}

theorem Chain.sound_begin {count : ℤ} (h : 0 ≤ count) : (Chain.begin count).Sound := by
  refine ⟨le_min h (by decide), ?_⟩
  change min count maxChainedExecutionAllowance + 0 ≤ maxChainedExecutionAllowance
  rw [add_zero]
  exact min_le_right ..

theorem Chain.Sound.recordChainedExecution (h : chain.Sound) (hpos : 0 < chain.allowance) :
    chain.recordChainedExecution.Sound := by
  obtain ⟨-, hle⟩ := h
  constructor
  · change 0 ≤ chain.allowance - 1
    omega
  · change chain.allowance - 1 + ((chain.recorded + 1 : ℕ) : ℤ) ≤ _
    omega

theorem Chain.Sound.setChainedExecutionAllowance (h : chain.Sound) :
    chain.setChainedExecutionAllowance chain.allowance = chain := by
  obtain ⟨-, hle⟩ := h
  unfold Chain.setChainedExecutionAllowance
  rw [min_eq_left (by omega)]

theorem Backed.sound {frames : List (Frame C)} (h : Backed chain interrupted frames) :
    chain.Sound := by
  cases frames with
  | nil => exact h.1
  | cons f rest => exact h.1

/-- Every chain of the thread is sound, down to the bottom of the stack. -/
theorem Backed.all_sound {frames : List (Frame C)} (h : Backed chain interrupted frames) :
    ∀ c ∈ chain :: interrupted, c.Sound := by
  induction frames generalizing chain interrupted with
  | nil =>
      obtain ⟨hsound, rfl⟩ := h
      intro c hc
      rwa [List.mem_singleton.mp hc]
  | cons f rest ih =>
      obtain ⟨hsound, -, hrest⟩ := h
      split at hrest
      · exact ih hrest.2
      · obtain ⟨c', cs, rfl, hrest⟩ := hrest
        intro c hc
        rcases List.mem_cons.mp hc with rfl | hc
        · exact hsound
        · exact ih hrest c hc

theorem Backed.goOn {stage : Stage C} {c : C} (h : Backed chain interrupted (f :: rest))
    (hpool : f.stage.needsPool) (hdraws : stage.draws → 0 < chain.allowance) :
    Backed chain interrupted (⟨c, stage, f.restores⟩ :: rest) := by
  obtain ⟨hsound, -, hrest⟩ := h
  refine ⟨hsound, fun _ => hdraws, ?_⟩
  split at hrest
  · next hnone =>
      dsimp only
      rw [hnone]
      exact ⟨fun _ => hrest.1 hpool, hrest.2⟩
  · next hsome =>
      dsimp only
      rw [hsome]
      exact hrest

end Chains

variable {T C : Type*}

/-- The stack of `t` is `frames` after a step on `t`, and the other stacks stay. -/
structure Stacks (s s' : State T C) (t : T) (frames : List (Frame C)) : Prop where
  self : (s'.thread t).frames = frames
  others : ∀ u, u ≠ t → (s'.thread u).frames = (s.thread u).frames

/-- How a step takes the call on top of the stack of `t` on, within an allowance. -/
inductive Moves (s s' : State T C) (t : T) (f : Frame C) (rest : List (Frame C))
    (allowance : ℤ) : Prop
  | leave : Stacks s s' t rest → Moves s s' t f rest allowance
  | goOn (c : C) (stage : Stage C) : f.stage.needsPool → (stage.draws → 0 < allowance) →
      Stacks s s' t (⟨c, stage, f.restores⟩ :: rest) → Moves s s' t f rest allowance

section Stacks

variable [DecidableEq T] {s s₁ s' : State T C} {t : T} {f : Frame C}
  {frames rest : List (Frame C)}

theorem Stacks.put (th : Thread C) : Stacks s (s.put t th) t th.frames := by
  constructor
  · exact congrArg Thread.frames (Function.update_self ..)
  · intro u hu
    exact congrArg Thread.frames (Function.update_of_ne hu ..)

omit [DecidableEq T] in
theorem Stacks.edit [DecidableEq C] (c : C) (g : Coroutine C → Coroutine C) :
    Stacks s (s.edit c g) t (s.thread t).frames :=
  ⟨rfl, fun _ _ => rfl⟩

omit [DecidableEq T] in
theorem Stacks.trans (h : Stacks s s₁ t frames) (h' : Stacks s₁ s' t rest) :
    Stacks s s' t rest :=
  ⟨h'.self, fun u hu => (h'.others u hu).trans (h.others u hu)⟩

theorem Stacks.schedule {c : C} (hs : s.schedule t c = some s') :
    Stacks s s' t (s.thread t).frames := by
  obtain ⟨r, -, rfl⟩ := Option.map_eq_some_iff.mp hs
  split
  · exact ⟨rfl, fun _ _ => rfl⟩
  · split_ifs
    · exact ⟨rfl, fun _ _ => rfl⟩
    · exact .put _

theorem Stacks.scheduleAndLeave {c : C} (hs : s.scheduleAndLeave t f rest c = some s') :
    Stacks s s' t rest := by
  obtain ⟨s₁, h₁, rfl⟩ := Option.map_eq_some_iff.mp hs
  exact (Stacks.schedule h₁).trans (.put _)

omit [DecidableEq T] in
theorem Stacks.of_thread (h : Stacks s₁ s' t frames) (hthread : s₁.thread = s.thread) :
    Stacks s s' t frames := by
  refine ⟨h.self, fun u hu => ?_⟩
  rw [h.others u hu, hthread]

omit [DecidableEq T] in
theorem Stacks.unchanged (h : Stacks s s' t (s.thread t).frames) (u : T) :
    (s'.thread u).frames = (s.thread u).frames := by
  by_cases hu : u = t
  · rw [hu, h.self]
  · exact h.others u hu

theorem Stacks.setCurrentEnter {c : Option C} {stage : Stage C} :
    Stacks s ((s.setCurrentCoroutine t c).enter t f rest stage) t
      ({ f with stage := stage } :: rest) :=
  (Stacks.put { s.thread t with currentCoroutine := c }).trans (.put _)

omit [DecidableEq T] in
theorem Moves.of_thread {allowance : ℤ} (h : Moves s₁ s' t f rest allowance)
    (hthread : s₁.thread = s.thread) : Moves s s' t f rest allowance := by
  cases h with
  | leave h => exact .leave (h.of_thread hthread)
  | goOn c stage hpool hdraws h => exact .goOn c stage hpool hdraws (h.of_thread hthread)

theorem Stacks.resume [DecidableEq C] {c : C} {restores : Option (Option C)}
    (hs : s.resume t c restores rest = some s') :
    ∃ stage, Stacks s s' t (⟨c, stage, restores⟩ :: rest) := by
  obtain ⟨stage, -, rfl⟩ := Option.map_eq_some_iff.mp hs
  exact ⟨stage, (Stacks.edit c _).trans (.put _)⟩

theorem Stacks.dequeue {p : Pool} {victim : Option T} {c : C}
    (hs : s.dequeue t p victim = some (c, s')) : Stacks s s' t (s.thread t).frames := by
  cases victim with
  | none =>
      unfold State.dequeue at hs
      dsimp only at hs
      split at hs
      · cases hs
      · cases hs
        exact ⟨rfl, fun _ _ => rfl⟩
  | some u =>
      obtain ⟨-, hs⟩ := Option.ite_none_right_eq_some.mp hs
      split at hs
      · cases hs
      · next c' q hq =>
          cases hs
          have hframes : ∀ v, ((s.put u { s.thread u with localQueue := q }).thread v).frames =
              (s.thread v).frames := by
            intro v
            unfold State.put
            dsimp only
            by_cases hv : v = u
            · subst hv
              rw [Function.update_self]
            · rw [Function.update_of_ne hv]
          exact ⟨hframes t, fun v _ => hframes v⟩

end Stacks

section Advice

variable {kind : AwaiterKind} {same canDoChainedExecution : Bool} {status : CoroutineStatus}
  {shouldCancelAbandoned isCancelled : Bool}

theorem canDoChainedExecution_of_onReady (hstatus : status ≠ abandonedCompleted)
    (h : kind.onReady same canDoChainedExecution status shouldCancelAbandoned isCancelled ≠
      .shouldSuspend) : canDoChainedExecution = true := by
  unfold AwaiterKind.onReady at h
  rw [if_neg hstatus] at h
  cases canDoChainedExecution with
  | true => rfl
  | false => simp at h

theorem canDoChainedExecution_of_onSuspend (hstatus : status ≠ abandonedCompleted)
    (h : kind.onSuspend same canDoChainedExecution status shouldCancelAbandoned isCancelled ≠
      .shouldSuspend) : canDoChainedExecution = true := by
  unfold AwaiterKind.onSuspend at h
  rw [if_neg hstatus] at h
  cases canDoChainedExecution with
  | true => rfl
  | false => simp at h

theorem onSuspend_abandonedCompleted :
    kind.onSuspend same canDoChainedExecution abandonedCompleted shouldCancelAbandoned isCancelled =
      .shouldNotSuspend :=
  if_pos rfl

end Advice

section Outcomes

variable {a : Awaiter C} {c c' : C} {advice : SuspensionAdvice} {found : Bool}

theorem resumeOther_ne_self : resumeOther advice c ≠ .self := by
  unfold resumeOther
  split_ifs <;> nofun

theorem resumeOther_transfer (h : resumeOther advice c = .transfer c') :
    advice ≠ .shouldSuspend ∧ c = c' := by
  unfold resumeOther at h
  split_ifs at h with hadvice
  exact ⟨hadvice, Outcome.transfer.inj h⟩

theorem elim_resumeOther_transfer {continuation : Option C}
    (h : continuation.elim .stay (resumeOther advice) = .transfer c') :
    advice ≠ .shouldSuspend ∧ continuation = some c' := by
  cases continuation with
  | none => cases h
  | some c =>
      obtain ⟨hadvice, rfl⟩ := resumeOther_transfer h
      exact ⟨hadvice, rfl⟩

/-- Only a task awaiter is ready against its advice. -/
theorem awaitReady_advice (h : a.awaitReady advice found = true) :
    advice ≠ .shouldSuspend ∨ ∃ c, a = .task c ∧ found = true := by
  by_contra hnot
  obtain ⟨hadvice, hfound⟩ := not_or.mp hnot
  rw [not_not] at hadvice
  subst hadvice
  cases a with
  | task c =>
      apply hfound
      exact ⟨c, rfl, (of_decide_eq_true h).resolve_left nofun⟩
  | _ => simp [Awaiter.awaitReady] at h

/-- An awaiter, a task awaiter apart, lets its coroutine go on only as it is advised. -/
theorem draws_of_self (htask : a.kind ≠ .task) (h : a.awaitSuspend c advice found = .self) :
    (Stage.suspended a advice).draws := by
  cases a with
  | task => exact absurd rfl htask
  | final continuation =>
      exfalso
      cases continuation with
      | none => cases h
      | some c => exact resumeOther_ne_self h
  | yield continuation =>
      by_cases hadvice : advice = .shouldNotSuspend
      · exact .inr ⟨hadvice, nofun⟩
      · exfalso
        unfold Awaiter.awaitSuspend at h
        dsimp only at h
        rw [if_neg hadvice] at h
        cases continuation with
        | none => cases h
        | some c => exact resumeOther_ne_self h
  | initial | threadPool =>
      unfold Awaiter.awaitSuspend at h
      dsimp only at h
      split_ifs at h with hadvice
      exact .inr ⟨hadvice, nofun⟩
  | mutex | event | value | barrier =>
      unfold Awaiter.awaitSuspend at h
      dsimp only at h
      split_ifs at h with hadvice hfound hsuspend
      · exact .inr ⟨hadvice, nofun⟩
      · left
        cases advice <;> simp_all

/-- A final awaiter that destroys its coroutine hands over without a look at the
allowance. -/
theorem draws_of_transfer (h : a.awaitSuspend c advice found = .transfer c') :
    (Stage.suspended a advice).needsPool ∧
      ((Stage.suspended a advice).draws ∨ a = .final (some c') ∧ advice = .shouldNotSuspend) := by
  cases a with
  | task => cases h
  | final continuation =>
      obtain ⟨hadvice, rfl⟩ := elim_resumeOther_transfer h
      refine ⟨trivial, ?_⟩
      cases advice with
      | shouldSuspend => exact absurd rfl hadvice
      | maySuspend => exact .inl (.inl rfl)
      | shouldNotSuspend => exact .inr ⟨rfl, rfl⟩
  | yield continuation =>
      unfold Awaiter.awaitSuspend at h
      dsimp only at h
      split_ifs at h with hnot
      obtain ⟨hadvice, -⟩ := elim_resumeOther_transfer h
      refine ⟨trivial, .inl ?_⟩
      cases advice with
      | shouldSuspend => exact absurd rfl hadvice
      | maySuspend => exact .inl rfl
      | shouldNotSuspend => exact absurd rfl hnot
  | initial | threadPool | mutex | event | value | barrier =>
      unfold Awaiter.awaitSuspend at h
      dsimp only at h
      split_ifs at h

end Outcomes

section Runs

variable [DecidableEq T] [DecidableEq C] {s s' : State T C} {t : T} {f : Frame C}
  {rest : List (Frame C)} {r : Coroutine C} {reads : Reads} {allowance : ℤ}

/-- At `stage` the awaiter does not go on, or hand over, without an advice to do so. -/
def State.honours (s : State T C) (t : T) : Stage C → Bool
  | .advised (.task c) _ | .suspended (.task c) _ => !s.isDone c
  | .suspended (.final (some c)) .shouldNotSuspend => s.kind c ≠ some (s.currentKind t)
  | _ => true

omit [DecidableEq T] [DecidableEq C] in
theorem draws_advised {a : Awaiter C} (hassert : (Stage.ready a).asserted r.status = true)
    (h : (Stage.advised a (s.onReady t r a.kind reads)).draws) :
    reads.canDoChainedExecution = true := by
  obtain ⟨hkind, hadvice⟩ := h
  rcases of_decide_eq_true hassert with hstatus | hfinal
  · exact canDoChainedExecution_of_onReady hstatus hadvice
  · exact absurd hfinal hkind

omit [DecidableEq T] [DecidableEq C] in
theorem draws_suspended {a : Awaiter C} (hassert : (Stage.suspending a).asserted r.status = true)
    (h : (Stage.suspended a (s.onSuspend t r a.kind reads)).draws) :
    reads.canDoChainedExecution = true := by
  by_cases hstatus : r.status = abandonedCompleted
  · exfalso
    have hfinal : a.kind = .final := (of_decide_eq_true hassert).resolve_left (absurd hstatus)
    unfold State.onSuspend at h
    rw [hstatus] at h
    rcases h with h | h
    · rw [onSuspend_abandonedCompleted] at h
      cases h
    · exact h.2 hfinal
  · apply canDoChainedExecution_of_onSuspend hstatus
    intro hadvice
    rcases h with h | h
    · exact absurd (h.symm.trans hadvice) nofun
    · exact absurd (h.1.symm.trans hadvice) nofun

theorem moves_conclude {a : Awaiter C} {o : Outcome C}
    (hgo : (o = .self ∨ ∃ c, o = .transfer c ∧ s.kind c = some (s.currentKind t)) →
      f.stage.needsPool ∧ 0 < allowance)
    (hs : s.conclude t f rest a o = some s') : Moves s s' t f rest allowance := by
  cases o with
  | self =>
      obtain ⟨hpool, hpos⟩ := hgo (.inl rfl)
      cases hs
      exact .goOn f.coroutine (.resuming a) hpool (fun _ => hpos)
        ((Stacks.edit f.coroutine _).trans (.put _))
  | stay =>
      cases hs
      exact .leave (.put _)
  | schedule c => exact .leave (.scheduleAndLeave hs)
  | transfer c =>
      unfold State.conclude at hs
      dsimp only at hs
      split_ifs at hs with hkind
      · obtain ⟨hpool, hpos⟩ := hgo (.inr ⟨c, rfl, hkind⟩)
        obtain ⟨stage, hstacks⟩ := Stacks.resume hs
        exact .goOn c stage hpool (fun _ => hpos) hstacks
      · exact .leave (.scheduleAndLeave hs)

theorem moves_markTask {c : C} {advice : SuspensionAdvice} (hpool : f.stage.needsPool)
    (hadvice : advice ≠ .shouldSuspend → 0 < allowance)
    (hdone : s.isDone c = true → 0 < allowance)
    (hs : s.markTask t f rest c advice = some s') : Moves s s' t f rest allowance := by
  obtain ⟨r, hr, hs⟩ := Option.bind_eq_some_iff.mp hs
  split_ifs at hs with hstart hisDone
  · cases hs
    exact .goOn f.coroutine (.marked c advice) hpool hadvice ((Stacks.edit c _).trans (.put _))
  · apply moves_conclude (fun _ => ⟨hpool, hdone ?_⟩) hs
    unfold State.isDone
    rw [hr]
    exact hisDone

theorem moves_suspended {a : Awaiter C} {advice : SuspensionAdvice} {found : Bool}
    (hallowance : 0 ≤ allowance) (hstage : f.stage = .suspended a advice) (htask : a.kind ≠ .task)
    (hdraws : f.stage.needsPool → f.stage.draws → 0 < allowance)
    (hhonours : allowance = 0 → s.honours t f.stage = true)
    (hs : s.conclude t f rest a (a.awaitSuspend f.coroutine advice found) = some s') :
    Moves s s' t f rest allowance := by
  rw [hstage] at hdraws hhonours
  apply moves_conclude _ hs
  rw [hstage]
  rintro (hself | ⟨c, htransfer, hkind⟩)
  · have hpool := needsPool_of_self hself
    exact ⟨hpool, hdraws hpool (draws_of_self htask hself)⟩
  · obtain ⟨hpool, hdraw | ⟨rfl, rfl⟩⟩ := draws_of_transfer htransfer
    · exact ⟨hpool, hdraws hpool hdraw⟩
    · refine ⟨hpool, hallowance.lt_of_ne' fun hzero => ?_⟩
      exact of_decide_eq_true (hhonours hzero) hkind

theorem moves_run (hallowance : 0 ≤ allowance)
    (hdraws : f.stage.needsPool → f.stage.draws → 0 < allowance)
    (hassert : f.stage.asserted r.status = true)
    (hcan : f.stage.needsPool → reads.canDoChainedExecution = true → 0 < allowance)
    (hfound : ∀ c advice, f.stage = .advised (.task c) advice → reads.found = s.isDone c)
    (hhonours : allowance = 0 → s.honours t f.stage = true)
    (hs : s.run t f rest r reads = some s') : Moves s s' t f rest allowance := by
  have hpositive : allowance ≠ 0 → 0 < allowance := fun h => hallowance.lt_of_ne' h
  unfold State.run at hs
  cases hstage : f.stage with
  | ready a =>
      simp only [hstage] at hs hassert hcan
      cases hs
      refine .goOn f.coroutine _ (by rw [hstage]; trivial)
        (fun h => hcan trivial (draws_advised (s := s) (t := t) hassert h)) ?_
      split_ifs
      · exact .setCurrentEnter
      · exact .put _
  | advised a advice =>
      have hpool : f.stage.needsPool := by rw [hstage]; trivial
      simp only [hstage] at hs hhonours
      split_ifs at hs with hready
      · split at hs
        · cases hs
          exact .leave (.put _)
        · exact .leave (.scheduleAndLeave hs)
        · next hnone hsome =>
            cases hs
            refine .goOn f.coroutine (.resuming a) hpool (fun _ => ?_) (.put _)
            rcases awaitReady_advice hready with hadvice | ⟨c, rfl, hdone⟩
            · apply hdraws hpool
              rw [hstage]
              refine ⟨fun hfinal => ?_, hadvice⟩
              cases a with
              | final continuation =>
                  cases continuation with
                  | none => exact hnone rfl
                  | some c => exact hsome c rfl
              | _ => cases hfinal
            · rw [hfound c advice hstage] at hdone
              apply hpositive
              intro hzero
              have hnot : (!s.isDone c) = true := hhonours hzero
              rw [hdone] at hnot
              cases hnot
      · cases hs
        exact .goOn f.coroutine (.suspending a) hpool nofun (.put _)
  | suspending a =>
      simp only [hstage] at hs hassert hcan
      obtain ⟨status, -, rfl⟩ := Option.map_eq_some_iff.mp hs
      refine .goOn f.coroutine _ (by rw [hstage]; trivial)
        (fun h => hcan trivial (draws_suspended (s := s) (t := t) hassert h)) ?_
      split_ifs
      · exact ((Stacks.put _).trans (Stacks.edit _ _)).trans (.put _)
      · exact (Stacks.edit _ _).trans (.put _)
  | suspended a advice =>
      cases a with
      | task c =>
          have hpool : f.stage.needsPool := by rw [hstage]; trivial
          simp only [hstage] at hs hhonours
          rw [hstage] at hdraws
          split_ifs at hs with hadvice
          · exact moves_conclude (fun _ => ⟨hpool, hdraws trivial (.inr ⟨hadvice, nofun⟩)⟩) hs
          · refine moves_markTask hpool (fun hsuspend => ?_) (fun hdone => hpositive ?_) hs
            · apply hdraws trivial
              left
              cases advice <;> simp_all
            · intro hzero
              have hnot : (!s.isDone c) = true := hhonours hzero
              rw [hdone] at hnot
              cases hnot
      | _ =>
          simp only [hstage] at hs
          exact moves_suspended hallowance hstage nofun hdraws hhonours hs
  | marked c advice =>
      simp only [hstage] at hs hdraws
      have hpool : f.stage.needsPool := by rw [hstage]; trivial
      have hmoves : Moves (s.edit c fun r => { r with continuation := some f.coroutine }) s' t f
          rest allowance := by
        apply moves_conclude _ hs
        rintro (hself | ⟨c', htransfer, -⟩)
        · exact absurd hself resumeOther_ne_self
        · exact ⟨hpool, hdraws trivial (resumeOther_transfer htransfer).1⟩
      exact hmoves.of_thread rfl
  | resuming a =>
      simp only [hstage] at hs hdraws
      cases hs
      refine .goOn f.coroutine .resumed (by rw [hstage]; trivial)
        (fun _ => hdraws trivial trivial) ?_
      apply Stacks.of_thread Stacks.setCurrentEnter
      split
      · rfl
      · rfl
  | resumed =>
      simp only [hstage] at hs hdraws
      have hpool : f.stage.needsPool := by rw [hstage]; trivial
      split at hs
      · cases hs
        exact .goOn f.coroutine .body hpool nofun (.put _)
      · obtain ⟨status, -, rfl⟩ := Option.map_eq_some_iff.mp hs
        exact .goOn f.coroutine _ hpool (fun _ => hdraws trivial trivial)
          ((Stacks.edit _ _).trans (.put _))
  | paused =>
      simp only [hstage] at hs
      split_ifs at hs
      cases hs
      exact .goOn f.coroutine .body (by rw [hstage]; trivial) nofun (.put _)
  | body =>
      simp only [hstage] at hs
      cases hs

theorem moves_finish {u : T} (hstage : f.stage = .body)
    (hs : s.bodyStep t f rest r (.finish u) = some s') : Moves s s' t f rest allowance := by
  unfold State.bodyStep at hs
  dsimp only at hs
  split at hs
  · cases hs
    exact .leave (.put _)
  · obtain ⟨status, -, rfl⟩ := Option.map_eq_some_iff.mp hs
    refine .goOn f.coroutine _ ?_ ?_ ((Stacks.edit _ _).trans (.put _))
    · rw [hstage]
      trivial
    · nofun

theorem stacks_await {u : T} {a : Awaiter C}
    (hs : s.bodyStep t f rest r (.await u a) = some s') :
    Stacks s s' t (⟨f.coroutine, .ready a, f.restores⟩ :: rest) := by
  obtain ⟨-, he⟩ := Option.ite_none_right_eq_some.mp hs
  cases he
  exact .put _

theorem stacks_yield {u : T} (hs : s.bodyStep t f rest r (.yield u) = some s') :
    Stacks s s' t (⟨f.coroutine, .ready (.yield r.continuation), f.restores⟩ :: rest) := by
  obtain ⟨-, hs⟩ := Option.ite_none_right_eq_some.mp hs
  obtain ⟨status, -, rfl⟩ := Option.map_eq_some_iff.mp hs
  exact (Stacks.edit _ _).trans (.put _)

/-- What follows a record is the body, from a stage that draws. -/
theorem stacks_of_records (hrecords : f.stage.records r.status reads = true)
    (hs : s.run t f rest r reads = some s') :
    f.stage.needsPool ∧ f.stage.draws ∧
      Stacks s s' t (⟨f.coroutine, .body, f.restores⟩ :: rest) := by
  unfold State.run at hs
  cases hstage : f.stage with
  | resumed =>
      simp only [hstage] at hs hrecords
      obtain ⟨hcalm, hstatus⟩ := of_decide_eq_true hrecords
      rw [hcalm, if_neg Bool.false_ne_true] at hs
      obtain ⟨status, -, rfl⟩ := Option.map_eq_some_iff.mp hs
      rw [if_neg hstatus]
      exact ⟨trivial, trivial, (Stacks.edit _ _).trans (.put _)⟩
  | paused =>
      simp only [hstage] at hs
      split_ifs at hs
      cases hs
      exact ⟨trivial, trivial, .put _⟩
  | _ =>
      rw [hstage] at hrecords
      cases hrecords

end Runs

section Bound

variable [DecidableEq T] {s s' : ChainedState T C} {pools : State T C} {t : T}
  {chain : Chain} {interrupted : List Chain} {f : Frame C} {frames rest : List (Frame C)}

structure Within (s : ChainedState T C) : Prop where
  pools : Inv s.pools
  backed : ∀ t, Backed (s.chain t) (s.interrupted t) (s.pools.thread t).frames
  assertFailed : s.assertFailed = false

theorem Within.set (h : Within s) (hinv : Inv pools) (hstacks : Stacks s.pools pools t frames)
    (hbacked : Backed chain interrupted frames) : Within (s.set pools t chain interrupted) := by
  refine ⟨hinv, fun u => ?_, h.assertFailed⟩
  unfold ChainedState.set
  dsimp only
  by_cases hu : u = t
  · subst hu
    rw [Function.update_self, Function.update_self, hstacks.self]
    exact hbacked
  · rw [Function.update_of_ne hu, Function.update_of_ne hu, hstacks.others u hu]
    exact h.backed u

theorem Within.keep (h : Within s) (hinv : Inv pools) (hstacks : Stacks s.pools pools t frames)
    (hbacked : Backed (s.chain t) (s.interrupted t) frames) :
    Within { s with pools := pools } := by
  have hset := h.set hinv hstacks hbacked
  unfold ChainedState.set at hset
  rwa [Function.update_eq_self, Function.update_eq_self] at hset

omit [DecidableEq T] in
theorem Within.same (h : Within s) (hinv : Inv pools)
    (hframes : ∀ u, (pools.thread u).frames = (s.pools.thread u).frames) :
    Within { s with pools := pools } := by
  refine ⟨hinv, fun u => ?_, h.assertFailed⟩
  rw [hframes u]
  exact h.backed u

theorem Within.unwind (h : Within s) (hinv : Inv pools)
    (hframes : (s.pools.thread t).frames = f :: rest)
    (hmoves : Moves s.pools pools t f rest (s.chain t).allowance) : Within (s.unwind t pools) := by
  have hbacked := h.backed t
  rw [hframes] at hbacked
  unfold ChainedState.unwind
  rw [hframes]
  cases hmoves with
  | goOn c stage hpool hdraws hstacks =>
      have hkeep := h.keep hinv hstacks (hbacked.goOn hpool hdraws)
      split
      · rw [if_neg]
        · exact hkeep
        · next heq _ =>
            rw [hstacks.self, ← (List.cons.inj heq).2]
            simp
      · exact hkeep
  | leave hstacks =>
      obtain ⟨-, -, hrest⟩ := hbacked
      cases hrestores : f.restores with
      | none =>
          rw [hrestores] at hrest
          have hkeep := h.keep hinv hstacks hrest.2
          split
          · rw [if_neg]
            · exact hkeep
            · next heq _ =>
                rw [← (List.cons.inj heq).1, hrestores]
                simp
          · exact hkeep
      | some c =>
          rw [hrestores] at hrest
          obtain ⟨chain, interrupted, hinterrupted, hrest⟩ := hrest
          rw [hinterrupted]
          dsimp only
          rw [hrestores, hstacks.self, if_pos ⟨rfl, rfl⟩, hrest.sound.setChainedExecutionAllowance]
          exact h.set hinv hstacks hrest

theorem Within.recordChainedExecution (h : Within s) (hinv : Inv pools)
    (hframes : (s.pools.thread t).frames = f :: rest) (hpool : f.stage.needsPool)
    (hdraws : f.stage.draws)
    (hstacks : Stacks s.pools pools t (⟨f.coroutine, .body, f.restores⟩ :: rest)) :
    Within (s.recordChainedExecution t pools) := by
  have hbacked := h.backed t
  rw [hframes] at hbacked
  obtain ⟨hsound, hpos, hrest⟩ := hbacked
  have hpos : 0 < (s.chain t).allowance := hpos hpool hdraws
  have hworker : (s.pools.thread t).currentThreadPool ≠ none := by
    obtain ⟨p, hp, -⟩ := (h.pools.threads t).frames f (by rw [hframes]; simp) hpool
    rw [hp]
    nofun
  have hset : Within (s.set pools t (s.chain t).recordChainedExecution (s.interrupted t)) := by
    apply h.set hinv hstacks
    refine ⟨hsound.recordChainedExecution hpos, fun _ => nofun, ?_⟩
    cases hrestores : f.restores with
    | none =>
        rw [hrestores] at hrest
        obtain ⟨hbottom, hrest⟩ := hrest
        obtain rfl := hbottom hpool
        exact ⟨fun _ => rfl, hsound.recordChainedExecution hpos, hrest.2⟩
    | some c =>
        rw [hrestores] at hrest
        exact hrest
  refine ⟨hset.pools, hset.backed, ?_⟩
  unfold ChainedState.recordChainedExecution
  dsimp only
  rw [h.assertFailed, Bool.false_or, decide_eq_false_iff_not, not_not]
  exact ⟨hworker, hpos⟩

theorem Within.resume {c : C} {stage : Stage C} (h : Within s) (hinv : Inv pools)
    (hstacks : Stacks s.pools pools t (⟨c, stage, if (s.pools.thread t).frames = [] then none
      else some (s.pools.thread t).currentCoroutine⟩ :: (s.pools.thread t).frames)) :
    Within (s.resume t pools) := by
  have hbacked := h.backed t
  unfold ChainedState.resume
  split_ifs at hstacks ⊢ with hframes
  · apply h.set hinv hstacks
    rw [hframes] at hbacked ⊢
    have hsound : (Chain.begin maxChainedExecutionAllowance).Sound := Chain.sound_begin (by decide)
    exact ⟨hsound, fun _ _ => by decide, fun _ => rfl, hsound, hbacked.2⟩
  · apply h.set hinv hstacks
    exact ⟨Chain.sound_begin (by decide), fun _ _ => by decide, _, _, rfl, hbacked⟩

variable [DecidableEq C]

theorem Within.create {c : C} {taskKind : TaskKind} {requested : ThreadPoolKind} {reads : Reads}
    (h : Within s) (hinv : Inv pools)
    (hs : s.pools.create t c taskKind requested reads = some pools) :
    Within { s with pools := pools } := by
  obtain ⟨-, s₁, rfl, rfl | ⟨stage, hstage, rfl⟩⟩ := create_cases hs
  · exact h.same hinv fun _ => rfl
  · refine h.keep hinv (Stacks.of_thread (.put _) rfl) ?_
    have hbacked := h.backed t
    exact ⟨hbacked.sound, fun hpool => absurd hpool hstage, fun hpool => absurd hpool hstage,
      hbacked⟩

theorem Within.run {reads : Reads} {r : Coroutine C} (h : Within s) (hinv : Inv pools)
    (htop : s.pools.top t = some (f, rest, r)) (hassert : f.stage.asserted r.status = true)
    (hhonours : (s.chain t).allowance = 0 → s.pools.honours t f.stage = true)
    (hs : s.pools.run t f rest r (s.load t reads) = some pools) :
    Within (s.next pools (.run t reads)) := by
  obtain ⟨hframes, -⟩ := top_eq htop
  have hbacked := h.backed t
  rw [hframes] at hbacked
  obtain ⟨⟨hnonneg, -⟩, hdraws, -⟩ := hbacked
  unfold ChainedState.next
  dsimp only
  split_ifs with hrecords
  · unfold ChainedState.records at hrecords
    rw [htop] at hrecords
    have hrecords : f.stage.records r.status (s.load t reads) = true := hrecords
    obtain ⟨hpool, hdraw, hstacks⟩ := stacks_of_records hrecords hs
    exact h.recordChainedExecution hinv hframes hpool hdraw hstacks
  · refine h.unwind hinv hframes (moves_run hnonneg hdraws hassert ?_ ?_ hhonours hs)
    · intro hpool hcan
      obtain ⟨p, hp, -⟩ := (h.pools.threads t).frames f (by rw [hframes]; simp) hpool
      refine (of_decide_eq_true hcan).resolve_left fun hnone => ?_
      rw [hp] at hnone
      cases hnone
    · intro c advice hstage
      unfold ChainedState.load ChainedState.stage
      rw [hframes]
      dsimp only [List.head?_cons, Option.map_some]
      rw [hstage]

/-- Where the awaiter in the call on top could go on or hand over against its advice,
there is an allowance left. -/
def ChainedState.Honoured (s : ChainedState T C) : Action T C → Prop
  | .run t _ => (s.chain t).allowance = 0 → ∀ stage ∈ s.stage t, s.pools.honours t stage = true
  | _ => True

theorem Within.step {a : Action T C} (h : Within s) (hg : s.Honoured a)
    (hs : s.step a = some s') : Within s' := by
  obtain ⟨hassert, hs⟩ := Option.ite_none_right_eq_some.mp hs
  obtain ⟨pools, hpools, rfl⟩ := Option.map_eq_some_iff.mp hs
  obtain ⟨-, hs⟩ := Option.ite_none_left_eq_some.mp hpools
  have hinv : Inv pools := h.pools.act hs
  cases a with
  | create t c taskKind requested reads =>
      obtain ⟨-, hs⟩ := Option.ite_none_right_eq_some.mp hs
      exact h.create hinv hs
  | await t a =>
      obtain ⟨⟨f, rest, r⟩, htop, hs⟩ := Option.bind_eq_some_iff.mp hs
      obtain ⟨hstage, hs⟩ := Option.ite_none_right_eq_some.mp hs
      have hbacked := h.backed t
      rw [(top_eq htop).1] at hbacked
      exact h.keep hinv (stacks_await hs) (hbacked.goOn (by rw [hstage]; trivial) nofun)
  | yield t =>
      obtain ⟨⟨f, rest, r⟩, htop, hs⟩ := Option.bind_eq_some_iff.mp hs
      obtain ⟨hstage, hs⟩ := Option.ite_none_right_eq_some.mp hs
      have hbacked := h.backed t
      rw [(top_eq htop).1] at hbacked
      exact h.keep hinv (stacks_yield hs) (hbacked.goOn (by rw [hstage]; trivial) nofun)
  | finish t =>
      obtain ⟨⟨f, rest, r⟩, htop, hs⟩ := Option.bind_eq_some_iff.mp hs
      obtain ⟨hstage, hs⟩ := Option.ite_none_right_eq_some.mp hs
      exact h.unwind hinv (top_eq htop).1 (moves_finish hstage hs)
  | run t reads =>
      obtain ⟨⟨f, rest, r⟩, htop, hs⟩ := Option.bind_eq_some_iff.mp hs
      unfold ChainedState.asserted at hassert
      dsimp only at hassert
      rw [htop] at hassert
      refine h.run hinv htop hassert (fun hzero => hg hzero f.stage ?_) hs
      unfold ChainedState.stage
      rw [(top_eq htop).1]
      rfl
  | work t victim =>
      obtain ⟨⟨c, s₁⟩, htake, hs⟩ := Option.bind_eq_some_iff.mp hs
      obtain ⟨p, -, htake⟩ := Option.bind_eq_some_iff.mp htake
      obtain ⟨stage, hstacks⟩ := Stacks.resume hs
      exact h.resume hinv ((Stacks.dequeue htake).trans hstacks)
  | schedule t c => exact h.same hinv (Stacks.schedule hs).unchanged
  | cancelTaskAwaiter t c =>
      obtain ⟨continuation, -, hs⟩ := Option.bind_eq_some_iff.mp hs
      exact h.same hinv (Stacks.schedule hs).unchanged
  | setStatus c status isFinalAwaiter =>
      obtain ⟨r, -, hs⟩ := Option.bind_eq_some_iff.mp hs
      obtain ⟨status, -, rfl⟩ := Option.map_eq_some_iff.mp hs
      exact h.same hinv fun _ => rfl

theorem within_of_reachWhile (hs : (chainedSystem T C).ReachWhile ChainedState.Honoured s) :
    Within s := by
  refine hs.invariant (fun s hstart => ?_) fun s a s' h hg ha => h.step hg ha
  obtain ⟨hpools, hchain, hassert⟩ := hstart
  refine ⟨inv_of_reach (.start hpools), fun t => ?_, hassert⟩
  obtain ⟨hinitial, hinterrupted⟩ := hchain t
  rw [hinitial, hinterrupted, (hpools.2.2.1 t).2.2]
  exact ⟨⟨by decide, by decide⟩, rfl⟩

/-- While the awaiters honour the advice, the allowance is positive whenever
`ThreadPool::recordChainedExecution` is called, which is on a worker, and no chain
has more than 100 resumptions. -/
theorem chained_within_allowance
    (hs : (chainedSystem T C).ReachWhile ChainedState.Honoured s) :
    s.assertFailed = false ∧ ∀ t, ∀ chain ∈ s.chain t :: s.interrupted t,
      0 ≤ chain.allowance ∧ chain.recorded ≤ 100 := by
  have h := within_of_reachWhile hs
  refine ⟨h.assertFailed, fun t chain hchain => ?_⟩
  obtain ⟨hnonneg, hle⟩ := (h.backed t).all_sound chain hchain
  refine ⟨hnonneg, ?_⟩
  unfold maxChainedExecutionAllowance at hle
  omega

instance (s : ChainedState T C) (a : Action T C) : Decidable (s.Honoured a) :=
  match a with
  | .run t _ =>
      inferInstanceAs (Decidable ((s.chain t).allowance = 0 →
        ∀ stage ∈ s.stage t, s.pools.honours t stage = true))
  | .create .. | .await .. | .yield _ | .finish _ | .work .. | .schedule .. |
      .cancelTaskAwaiter .. | .setStatus .. => .isTrue trivial

end Bound

def threeChains : ChainedState (Fin 3) Bool := ⟨threeThreads, fun _ => .initial, fun _ => [], false⟩

theorem start_threeChains : (chainedSystem (Fin 3) Bool).start threeChains :=
  ⟨⟨fun _ => rfl, fun _ => rfl, fun _ => ⟨rfl, rfl, rfl⟩, rfl, rfl⟩, fun _ => ⟨rfl, rfl⟩, rfl⟩

/-- A background coroutine awaits a task of its pool, which runs in the same chain, and
then awaits the task, which is done by now, `n` times. -/
def awaits (n : ℕ) : List (Action (Fin 3) Bool) :=
  [.create 0 false .async .background calm, .run 0 calm, .work 1 none, .run 1 calm, .run 1 calm,
      .create 1 true .task .background calm, .run 1 calm, .await 1 (.task true)] ++
    List.replicate 7 (.run 1 calm) ++ [.finish 1, .setStatus true .completed true] ++
    List.replicate 6 (.run 1 calm) ++
    (List.replicate n (.await 1 (.task true) :: List.replicate 4 (.run 1 calm))).flatten

theorem chained_within_allowance_awaited :
    ∃ s : ChainedState (Fin 3) Bool,
      (chainedSystem (Fin 3) Bool).ReachWhile ChainedState.Honoured s ∧
        s.chain 1 = ⟨95, 5⟩ ∧ s.assertFailed = false ∧
        ∀ t, ∀ chain ∈ s.chain t :: s.interrupted t,
          0 ≤ chain.allowance ∧ chain.recorded ≤ 100 := by
  obtain ⟨s, hs, hchain⟩ := StepSystem.Reach.exists_of_exec
    (M := (chainedSystem (Fin 3) Bool).restrict ChainedState.Honoured)
    (P := fun s => s.chain 1 = ⟨95, 5⟩) (s := threeChains) (.start start_threeChains)
    (awaits 2) (by decide +kernel)
  obtain ⟨hassert, hchains⟩ := chained_within_allowance hs.reachWhile
  exact ⟨s, hs.reachWhile, hchain, hassert, hchains⟩

/-- A task awaiter goes on whenever its task is done, also when its advice is
`shouldSuspend`: in a loop it is resumed for the 101st time in one chain. -/
theorem chained_beyond_allowance :
    ∃ s : ChainedState (Fin 3) Bool, (chainedSystem (Fin 3) Bool).Reach s ∧
      s.assertFailed = true ∧ s.chain 1 = ⟨-1, 101⟩ :=
  StepSystem.Reach.exists_of_exec (M := chainedSystem (Fin 3) Bool)
    (P := fun s => s.assertFailed = true ∧ s.chain 1 = ⟨-1, 101⟩) (s := threeChains)
    (.start start_threeChains) (awaits 98) (by decide +kernel)

end LevelzAsync.PoolAffinity
