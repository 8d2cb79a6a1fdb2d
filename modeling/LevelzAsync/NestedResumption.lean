import LevelzAsync.CurrentCoroutine

/-!
# `ThreadPool::yield` puts everything back

A worker that spins inside a call runs other coroutines on top of it. They may await,
create coroutines, spin themselves, hand over to others, and use up the allowance of
their own chain. Until they have returned, what the thread had before stays on its
stack: the frames below, and for each call of `ThreadPool::yield` the current coroutine
and the allowance that it has read.
-/

namespace LevelzAsync.PoolAffinity

open CoroutineStatus

/-- What a thread has for itself, apart from its queue. -/
structure Context (C : Type*) where
  frames : List (Frame C)
  currentCoroutine : Option C
  chain : Chain
  interrupted : List Chain
  deriving DecidableEq

/-- The context is the one `base`, or has been built on it by calls of
`ThreadPool::yield` and creations. -/
inductive Nested {C : Type*} (base : Context C) : Context C → Prop
  | back : Nested base base
  | yield {saved : Context C} (c : C) (stage : Stage C) (currentCoroutine : Option C)
      (chain : Chain) : saved.chain.allowance ≤ maxChainedExecutionAllowance →
      Nested base saved →
      Nested base ⟨⟨c, stage, some saved.currentCoroutine⟩ :: saved.frames, currentCoroutine,
        chain, saved.chain :: saved.interrupted⟩
  | create {saved : Context C} (c : C) (stage : Stage C) : ¬stage.needsPool →
      Nested base saved → Nested base { saved with frames := ⟨c, stage, none⟩ :: saved.frames }

theorem Chain.setChainedExecutionAllowance_self {chain : Chain}
    (h : chain.allowance ≤ maxChainedExecutionAllowance) :
    chain.setChainedExecutionAllowance chain.allowance = chain := by
  unfold Chain.setChainedExecutionAllowance
  rw [min_eq_left h]

theorem Nested.eq_or_lt {C : Type*} {base ctx : Context C} (h : Nested base ctx) :
    ctx = base ∨ base.frames.length < ctx.frames.length := by
  induction h with
  | back => exact .inl rfl
  | yield c stage current chain _ _ ih =>
      right
      rw [List.length_cons]
      rcases ih with rfl | hlt
      · exact Nat.lt_succ_self _
      · omega
  | create c stage _ _ ih =>
      right
      rw [List.length_cons]
      rcases ih with rfl | hlt
      · exact Nat.lt_succ_self _
      · omega

variable {T C : Type*}

def ChainedState.context (s : ChainedState T C) (t : T) : Context C where
  frames := (s.pools.thread t).frames
  currentCoroutine := (s.pools.thread t).currentCoroutine
  chain := s.chain t
  interrupted := s.interrupted t

/-- No chain has more than the greatest allowance. -/
def ChainedState.Capped (s : ChainedState T C) : Prop :=
  ∀ t, ∀ chain ∈ s.chain t :: s.interrupted t, chain.allowance ≤ maxChainedExecutionAllowance

section Chains

variable [DecidableEq T] {s : ChainedState T C} {pools : State T C} {t u : T} {chain : Chain}
  {interrupted : List Chain} {f : Frame C} {rest : List (Frame C)}

theorem ChainedState.Capped.set (h : s.Capped)
    (hchains : ∀ c ∈ chain :: interrupted, c.allowance ≤ maxChainedExecutionAllowance) :
    (s.set pools t chain interrupted).Capped := by
  intro u
  unfold ChainedState.set
  dsimp only
  by_cases hu : u = t
  · subst hu
    rwa [Function.update_self, Function.update_self]
  · rw [Function.update_of_ne hu, Function.update_of_ne hu]
    exact h u

theorem ChainedState.Capped.resume (h : s.Capped) : (s.resume t pools).Capped := by
  unfold ChainedState.resume
  split_ifs
  · refine h.set fun c hc => ?_
    rcases List.mem_cons.mp hc with rfl | hc
    · exact min_le_right ..
    · exact h t c (List.mem_cons_of_mem _ hc)
  · refine h.set fun c hc => ?_
    rcases List.mem_cons.mp hc with rfl | hc
    · exact min_le_right ..
    · exact h t c hc

theorem ChainedState.Capped.unwind (h : s.Capped) : (s.unwind t pools).Capped := by
  unfold ChainedState.unwind
  split
  · next heq =>
      split_ifs
      · refine h.set fun c hc => ?_
        rcases List.mem_cons.mp hc with rfl | hc
        · exact min_le_right ..
        · refine h t c (List.mem_cons_of_mem _ ?_)
          rw [heq]
          exact List.mem_cons_of_mem _ hc
      · exact h
  · exact h

theorem ChainedState.Capped.recordChainedExecution (h : s.Capped) :
    (s.recordChainedExecution t pools).Capped := by
  have hset : (s.set pools t (s.chain t).recordChainedExecution (s.interrupted t)).Capped := by
    refine h.set fun c hc => ?_
    rcases List.mem_cons.mp hc with rfl | hc
    · have hcap := h t _ List.mem_cons_self
      change (s.chain t).allowance - 1 ≤ _
      omega
    · exact h t c (List.mem_cons_of_mem _ hc)
  exact hset

theorem ChainedState.Capped.next {a : Action T C} (h : s.Capped) : (s.next pools a).Capped := by
  cases a with
  | work t victim => exact h.resume
  | run t reads =>
      unfold ChainedState.next
      dsimp only
      split_ifs
      · exact h.recordChainedExecution
      · exact h.unwind
  | finish t => exact h.unwind
  | _ => exact h

theorem capped_of_reach [DecidableEq C] (hs : (chainedSystem T C).Reach s) : s.Capped := by
  refine hs.invariant (fun s hstart t c hc => ?_) fun s a s' h ha => ?_
  · obtain ⟨hinitial, hinterrupted⟩ := hstart.2.1 t
    rw [hinitial, hinterrupted] at hc
    rw [List.mem_singleton.mp hc]
    exact le_rfl
  · obtain ⟨-, ha⟩ := Option.ite_none_right_eq_some.mp ha
    obtain ⟨pools, -, rfl⟩ := Option.map_eq_some_iff.mp ha
    exact h.next

end Chains

section Contexts

variable [DecidableEq T] {s s' : ChainedState T C} {pools : State T C} {t u : T}
  {chain : Chain} {interrupted : List Chain} {current : Option C} {f : Frame C}
  {frames rest : List (Frame C)} {base : Context C}

theorem context_set (hcalls : Calls s.pools pools t current frames) :
    (s.set pools t chain interrupted).context t = ⟨frames, current, chain, interrupted⟩ := by
  unfold ChainedState.context ChainedState.set
  dsimp only
  rw [hcalls.self, hcalls.current, Function.update_self, Function.update_self]

omit [DecidableEq T] in
theorem context_keep (hcalls : Calls s.pools pools t current frames) :
    ({ s with pools := pools } : ChainedState T C).context t =
      ⟨frames, current, s.chain t, s.interrupted t⟩ := by
  unfold ChainedState.context
  dsimp only
  rw [hcalls.self, hcalls.current]

/-- The call on top was made by `ThreadPool::yield`, or it is a creation. -/
theorem Nested.top (h : Nested base ⟨f :: rest, current, chain, interrupted⟩)
    (habove : base.frames.length ≤ rest.length) :
    (∃ saved : Context C, saved.frames = rest ∧ f.restores = some saved.currentCoroutine ∧
      interrupted = saved.chain :: saved.interrupted ∧
      saved.chain.allowance ≤ maxChainedExecutionAllowance ∧ Nested base saved) ∨
    f.restores = none ∧ ¬f.stage.needsPool ∧ Nested base ⟨rest, current, chain, interrupted⟩ := by
  cases h with
  | back =>
      rw [List.length_cons] at habove
      omega
  | yield _ _ _ _ hcap hsaved => exact .inl ⟨_, rfl, rfl, rfl, hcap, hsaved⟩
  | create _ _ hstage hsaved => exact .inr ⟨rfl, hstage, hsaved⟩

theorem Nested.goOn (h : Nested base ⟨f :: rest, current, chain, interrupted⟩)
    (habove : base.frames.length ≤ rest.length) (hpool : f.stage.needsPool) (c : C)
    (stage : Stage C) (current' : Option C) (chain' : Chain) :
    Nested base ⟨⟨c, stage, f.restores⟩ :: rest, current', chain', interrupted⟩ := by
  rcases h.top habove with ⟨saved, rfl, hrestores, rfl, hcap, hsaved⟩ | ⟨-, hstage, -⟩
  · rw [hrestores]
    exact .yield c stage current' chain' hcap hsaved
  · exact absurd hpool hstage

omit [DecidableEq T] in
theorem Turn.of_stacks {s s' : State T C} {g : Frame C} (h : Turn s s' t f rest)
    (hstacks : Stacks s s' t (g :: rest)) :
    ∃ c stage current, f.stage.needsPool ∧
      Calls s s' t current (⟨c, stage, f.restores⟩ :: rest) := by
  cases h with
  | goOn c stage current hpool _ hcalls => exact ⟨c, stage, current, hpool, hcalls⟩
  | leave hcalls =>
      have hlength := congrArg List.length (hcalls.self.symm.trans hstacks.self)
      rw [List.length_cons] at hlength
      omega

/-- A return from `ThreadPool::yield` puts back what it has read. -/
theorem Nested.unwind (h : Nested base (s.context t))
    (hframes : (s.pools.thread t).frames = f :: rest)
    (habove : base.frames.length ≤ rest.length) (hturn : Turn s.pools pools t f rest) :
    Nested base ((s.unwind t pools).context t) := by
  unfold ChainedState.context at h
  rw [hframes] at h
  unfold ChainedState.unwind
  rw [hframes]
  cases hturn with
  | goOn c stage current hpool _ hcalls =>
      have hgoOn := h.goOn habove hpool c stage current (s.chain t)
      split
      · next heq _ =>
          rw [if_neg]
          · rwa [context_keep hcalls]
          · rw [hcalls.self, ← (List.cons.inj heq).2, List.length_cons]
            omega
      · rwa [context_keep hcalls]
  | leave hcalls =>
      rcases h.top habove with ⟨saved, rfl, hrestores, hinterrupted, hcap, hsaved⟩ |
          ⟨hrestores, -, hsaved⟩
      · rw [hrestores] at hcalls
        rw [hinterrupted]
        dsimp only
        rw [if_pos ⟨by rw [hrestores]; rfl, congrArg List.length hcalls.self⟩,
          context_set hcalls, Chain.setChainedExecutionAllowance_self hcap]
        exact hsaved
      · rw [hrestores] at hcalls
        split
        · next heq _ =>
            rw [if_neg]
            · rwa [context_keep hcalls]
            · rw [← (List.cons.inj heq).1, hrestores]
              simp
        · rwa [context_keep hcalls]

variable [DecidableEq C]

omit [DecidableEq C] in
theorem context_other {a : Action T C} (hchanges : Changes s.pools pools t)
    (ha : ∀ v, a.thread = some v → v = t) (hu : u ≠ t) :
    (s.next pools a).context u = s.context u := by
  obtain ⟨current, frames, hcalls⟩ := hchanges.calls
  have hset : ∀ chain interrupted, (s.set pools t chain interrupted).context u = s.context u := by
    intro chain interrupted
    unfold ChainedState.context ChainedState.set
    dsimp only
    rw [hcalls.others u hu, hcalls.otherCurrents u hu, Function.update_of_ne hu,
      Function.update_of_ne hu]
  have hkeep : ({ s with pools := pools } : ChainedState T C).context u = s.context u := by
    unfold ChainedState.context
    dsimp only
    rw [hcalls.others u hu, hcalls.otherCurrents u hu]
  have hunwind : (s.unwind t pools).context u = s.context u := by
    unfold ChainedState.unwind
    split
    · split_ifs
      · exact hset _ _
      · exact hkeep
    · exact hkeep
  cases a with
  | work v victim =>
      obtain rfl := ha v rfl
      unfold ChainedState.next ChainedState.resume
      dsimp only
      split_ifs
      · exact hset _ _
      · exact hset _ _
  | run v reads =>
      obtain rfl := ha v rfl
      unfold ChainedState.next
      dsimp only
      split_ifs
      · exact hset _ _
      · exact hunwind
  | finish v =>
      obtain rfl := ha v rfl
      exact hunwind
  | _ => exact hkeep

/-- A call of `ThreadPool::yield` begins a chain of its own on top of the context. -/
theorem Nested.work {victim : Option T} (h : Nested base (s.context t)) (hcap : s.Capped)
    (hframes : (s.pools.thread t).frames ≠ [])
    (hs : s.pools.work t victim = some pools) : Nested base ((s.resume t pools).context t) := by
  obtain ⟨c, stage, -, hcalls⟩ := Calls.work hs
  rw [if_neg hframes] at hcalls
  unfold ChainedState.resume
  rw [if_neg hframes, context_set hcalls]
  exact .yield c stage (s.pools.thread t).currentCoroutine (.begin 1)
    (hcap t _ List.mem_cons_self) h

theorem Nested.run {reads : Reads} {r : Coroutine C} (h : Nested base (s.context t))
    (hnamed : s.pools.Named) (htop : s.pools.top t = some (f, rest, r))
    (habove : base.frames.length ≤ rest.length)
    (hs : s.pools.run t f rest r (s.load t reads) = some pools) :
    Nested base ((s.next pools (.run t reads)).context t) := by
  obtain ⟨hframes, -⟩ := top_eq htop
  have hnames := hnamed t
  rw [hframes] at hnames
  have hturn := turn_run hnames.1 hs
  unfold ChainedState.next
  dsimp only
  split_ifs with hrecords
  · unfold ChainedState.records at hrecords
    rw [htop] at hrecords
    have hrecords : f.stage.records r.status (s.load t reads) = true := hrecords
    obtain ⟨hpool, -, hstacks⟩ := stacks_of_records hrecords hs
    unfold ChainedState.context at h
    rw [hframes] at h
    obtain ⟨c, stage, current, -, hcalls⟩ := hturn.of_stacks hstacks
    change Nested base ((s.set pools t _ _).context t)
    rw [context_set hcalls]
    exact h.goOn habove hpool c stage current _
  · exact h.unwind hframes habove hturn

omit [DecidableEq T] [DecidableEq C] in
theorem Nested.same (h : Nested base (s.context t))
    (hcalls : Calls s.pools pools t (s.pools.thread t).currentCoroutine
      (s.pools.thread t).frames) :
    Nested base (({ s with pools := pools } : ChainedState T C).context t) := by
  rw [context_keep hcalls]
  exact h

omit [DecidableEq T] [DecidableEq C] in
theorem Nested.suspend {g : Frame C} (h : Nested base (s.context t))
    (habove : base.frames.length < (s.pools.thread t).frames.length)
    (hframes : (s.pools.thread t).frames = f :: rest)
    (hturn : Turn s.pools pools t f rest) (hstacks : Stacks s.pools pools t (g :: rest)) :
    Nested base (({ s with pools := pools } : ChainedState T C).context t) := by
  obtain ⟨c, stage, current, hpool, hcalls⟩ := hturn.of_stacks hstacks
  unfold ChainedState.context at h
  rw [hframes] at h habove
  rw [context_keep hcalls]
  exact h.goOn (Nat.lt_succ_iff.mp habove) hpool c stage current _

theorem Nested.own {a : Action T C} (h : Nested base (s.context t)) (hcap : s.Capped)
    (hnamed : s.pools.Named) (habove : base.frames.length < (s.pools.thread t).frames.length)
    (ht : ∀ u, a.thread = some u → u = t) (ha : act s.pools (s.resolve a) = some pools) :
    Nested base ((s.next pools a).context t) := by
  cases a with
  | create u c taskKind requested reads =>
      obtain rfl := ht u rfl
      obtain ⟨-, ha⟩ := Option.ite_none_right_eq_some.mp ha
      rcases Calls.create ha with hcalls | ⟨stage, hstage, hcalls⟩
      · exact h.same hcalls
      · unfold ChainedState.next
        dsimp only
        rw [context_keep hcalls]
        exact .create c stage hstage h
  | await u a =>
      obtain rfl := ht u rfl
      obtain ⟨⟨f, rest, r⟩, htop, ha⟩ := Option.bind_eq_some_iff.mp ha
      obtain ⟨hstage, ha⟩ := Option.ite_none_right_eq_some.mp ha
      exact h.suspend habove (top_eq htop).1 (turn_bodyStep hstage ha) (stacks_await ha)
  | yield u =>
      obtain rfl := ht u rfl
      obtain ⟨⟨f, rest, r⟩, htop, ha⟩ := Option.bind_eq_some_iff.mp ha
      obtain ⟨hstage, ha⟩ := Option.ite_none_right_eq_some.mp ha
      exact h.suspend habove (top_eq htop).1 (turn_bodyStep hstage ha) (stacks_yield ha)
  | finish u =>
      obtain rfl := ht u rfl
      obtain ⟨f, rest, hframes, hturn⟩ := turn_body ha
      rw [hframes, List.length_cons] at habove
      exact h.unwind hframes (Nat.lt_succ_iff.mp habove) hturn
  | run u reads =>
      obtain rfl := ht u rfl
      obtain ⟨⟨f, rest, r⟩, htop, ha⟩ := Option.bind_eq_some_iff.mp ha
      rw [(top_eq htop).1, List.length_cons] at habove
      exact h.run hnamed htop (Nat.lt_succ_iff.mp habove) ha
  | work u victim =>
      obtain rfl := ht u rfl
      refine h.work hcap (fun hframes => ?_) ha
      rw [hframes] at habove
      exact Nat.not_lt_zero _ habove
  | schedule u c =>
      obtain rfl := ht u rfl
      exact h.same (.schedule ha)
  | cancelTaskAwaiter u c =>
      obtain rfl := ht u rfl
      exact h.same (.cancelTaskAwaiter ha)
  | setStatus c status isFinalAwaiter => exact h.same (.setStatus ha)

omit [DecidableEq T] [DecidableEq C] in
theorem thread_resolve [DecidableEq T] [DecidableEq C] (a : Action T C) :
    (s.resolve a).thread = a.thread := by
  cases a with
  | _ => rfl

theorem Nested.step {a : Action T C} (hs : (chainedSystem T C).Reach s)
    (h : Nested base (s.context t))
    (habove : base.frames.length < (s.pools.thread t).frames.length)
    (ha : s.step a = some s') : Nested base (s'.context t) := by
  obtain ⟨-, ha⟩ := Option.ite_none_right_eq_some.mp ha
  obtain ⟨pools, hpools, rfl⟩ := Option.map_eq_some_iff.mp ha
  obtain ⟨-, ha⟩ := Option.ite_none_left_eq_some.mp hpools
  have hnamed : s.pools.Named := named_of_reach (chained_refines.reach hs)
  by_cases ht : ∀ u, a.thread = some u → u = t
  · exact h.own (capped_of_reach hs) hnamed habove ht ha
  · obtain ⟨u, hu, hne⟩ : ∃ u, a.thread = some u ∧ u ≠ t := by simpa using ht
    have hthread : ∀ v, a.thread = some v → v = u :=
      fun v hv => Option.some.inj (hv.symm.trans hu)
    have hchanges : Changes s.pools pools u := by
      apply changes_act hnamed ha
      rwa [thread_resolve]
    rwa [context_other hchanges hthread hne.symm]

/-- However far a worker in `ThreadPool::yield` runs other coroutines, and whatever the
other threads do meanwhile, when the call returns the thread has its calls, its current
coroutine and its allowance back as they were. -/
theorem yield_restores {s₁ : ChainedState T C} {victim : Option T}
    (hs : (chainedSystem T C).Reach s) (hspins : (s.pools.thread t).frames ≠ [])
    (hyield : (chainedSystem T C).step s (.work t victim) = some s₁)
    (hrun : (chainedSystem T C).RunWhile
      (fun s₂ _ => (s.pools.thread t).frames.length < (s₂.pools.thread t).frames.length) s₁ s')
    (hback : (s'.pools.thread t).frames.length ≤ (s.pools.thread t).frames.length) :
    s'.context t = s.context t := by
  have hs₁ : (chainedSystem T C).Reach s₁ := hs.step hyield
  have hyield : s.step (.work t victim) = some s₁ := hyield
  have hnested₁ : Nested (s.context t) (s₁.context t) := by
    obtain ⟨-, ha⟩ := Option.ite_none_right_eq_some.mp hyield
    obtain ⟨pools, hpools, rfl⟩ := Option.map_eq_some_iff.mp ha
    obtain ⟨-, ha⟩ := Option.ite_none_left_eq_some.mp hpools
    exact Nested.work .back (capped_of_reach hs) hspins ha
  have hnested : Nested (s.context t) (s'.context t) :=
    hrun.invariant (I := fun s₂ => Nested (s.context t) (s₂.context t))
      (fun _ _ _ hs₂ h habove ha => h.step hs₂ habove ha) hs₁ hnested₁
  rcases hnested.eq_or_lt with heq | hlt
  · exact heq
  · exact absurd hlt (Nat.not_lt.mpr hback)

end Contexts

/-- A coroutine that the worker of the background pool takes in `ThreadPool::yield` runs to
its end. -/
def yields (s : ChainedState (Fin 3) Bool) : Bool :=
  ((chainedSystem (Fin 3) Bool).step s (.work 1 none)).any fun s₁ =>
    (((chainedSystem (Fin 3) Bool).restrict fun s₂ _ =>
      1 < (s₂.pools.thread 1).frames.length).exec s₁ ((spins 4).drop 8)).any fun s' =>
        (s'.pools.thread 1).frames.length ≤ 1 ∧
          (s'.pools.coroutine true).map Coroutine.status = some finalSuspended

theorem yield_restores_spinning :
    ∃ s s' : ChainedState (Fin 3) Bool, (chainedSystem (Fin 3) Bool).Reach s ∧
      s.context 1 = ⟨[⟨false, .body, none⟩], some false, ⟨99, 1⟩, []⟩ ∧
      (s'.pools.coroutine true).map Coroutine.status = some finalSuspended ∧
      s'.context 1 = s.context 1 := by
  obtain ⟨s, hs, hctx, hruns⟩ := StepSystem.Reach.exists_of_exec
    (M := chainedSystem (Fin 3) Bool)
    (P := fun s => s.context 1 = ⟨[⟨false, .body, none⟩], some false, ⟨99, 1⟩, []⟩ ∧
      yields s = true)
    (s := threeChains) (.start start_threeChains) ((spins 0).take 7) (by decide)
  obtain ⟨s₁, hyield, hruns⟩ := Option.any_eq_true _ _ |>.mp hruns
  obtain ⟨s', hrun, hs'⟩ := Option.any_eq_true _ _ |>.mp hruns
  obtain ⟨hback, hstatus⟩ := of_decide_eq_true hs'
  have hframes : (s.pools.thread 1).frames = [⟨false, .body, none⟩] :=
    congrArg Context.frames hctx
  refine ⟨s, s', hs, hctx, hstatus, yield_restores hs ?_ hyield ?_ ?_⟩
  · simp only [hframes, ne_eq, reduceCtorEq, not_false_eq_true]
  · rw [hframes]
    exact .of_exec _ hrun
  · rwa [hframes]

end LevelzAsync.PoolAffinity
