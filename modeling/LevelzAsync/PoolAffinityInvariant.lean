import LevelzAsync.PoolAffinity

/-!
# Bodies run on the threads of their coroutine's pool

No coroutine has the kind `Current`, every queue holds coroutines of its own pool,
and every call on a thread's stack is into a coroutine of that thread's pool, a
creation apart. A creation never goes on into the body: the advice of the initial
awaiter on a coroutine that nobody knows yet is not `shouldNotSuspend`. At every
other place a handle is resumed on the thread that holds it only after a check of
the kinds, or by a worker that took it out of a queue.
-/

namespace LevelzAsync.PoolAffinity

open CoroutineStatus

def OnPool (pool : Option Pool) (kind : Option ThreadPoolKind) : Prop :=
  ∃ p, pool = some p ∧ kind = some p.kind

/-- The call is not the creation of a coroutine that stays suspended. -/
def Stage.needsPool {C : Type*} : Stage C → Prop
  | .suspended .initial advice | .suspended .threadPool advice => advice = .shouldNotSuspend
  | _ => True

structure ThreadFits {C : Type*} (kind : C → Option ThreadPoolKind) (th : Thread C) : Prop where
  localQueue : ∀ c ∈ th.localQueue, OnPool th.currentThreadPool (kind c)
  frames : ∀ f ∈ th.frames, f.stage.needsPool → OnPool th.currentThreadPool (kind f.coroutine)

section Kinds

theorem Pool.kind_ne_current (p : Pool) : p.kind ≠ .current := by
  cases p <;> nofun

theorem threadPool_eq_some {kind : ThreadPoolKind} (h : kind ≠ .current) :
    ∃ p, threadPool kind = some p ∧ kind = p.kind := by
  cases kind with
  | current => exact absurd rfl h
  | default => exact ⟨.default, rfl, rfl⟩
  | background => exact ⟨.background, rfl, rfl⟩

theorem determineThreadPoolKind_ne_current {requested : ThreadPoolKind}
    {kind : Option ThreadPoolKind} {pool : Option Pool} (h : kind ≠ some .current) :
    determineThreadPoolKind requested kind pool ≠ .current := by
  unfold determineThreadPoolKind
  cases requested with
  | current =>
      cases kind with
      | some k => exact fun hk => h (congrArg some hk)
      | none =>
          cases pool with
          | some p => exact p.kind_ne_current
          | none => nofun
  | default => nofun
  | background => nofun

/-- The check before a handle is resumed on the same thread. -/
theorem OnPool.of_check {kind : ThreadPoolKind} {pool : Option Pool} (h : kind ≠ .current)
    (hcheck : kind = currentThreadPoolKind pool) : OnPool pool (some kind) := by
  cases pool with
  | none => exact absurd hcheck h
  | some p => exact ⟨p, rfl, congrArg some hcheck⟩

theorem OnPool.check {kind : ThreadPoolKind} {pool : Option Pool} (h : OnPool pool (some kind)) :
    kind = currentThreadPoolKind pool := by
  obtain ⟨p, rfl, hk⟩ := h
  exact Option.some.inj hk

end Kinds

section Creation

variable {C : Type*} {a : Awaiter C} {same canDoChainedExecution shouldCancelAbandoned : Bool}

theorem onReady_notStarted :
    a.kind.onReady same canDoChainedExecution notStarted shouldCancelAbandoned false ≠
      .shouldNotSuspend := by
  unfold AwaiterKind.onReady
  split_ifs <;> simp_all

theorem onSuspend_notStarted :
    a.kind.onSuspend same canDoChainedExecution notStarted shouldCancelAbandoned false ≠
      .shouldNotSuspend := by
  unfold AwaiterKind.onSuspend
  split_ifs <;> simp_all

theorem awaitReady_creation {advice : SuspensionAdvice} (ha : a = .initial ∨ a = .threadPool)
    (h : advice ≠ .shouldNotSuspend) : a.awaitReady advice false = false := by
  rcases ha with rfl | rfl
  · rfl
  · simpa [Awaiter.awaitReady] using h

end Creation

variable {T C : Type*}

structure Inv (s : State T C) : Prop where
  kinds : ∀ c, s.kind c ≠ some .current
  globalQueue : ∀ p, ∀ c ∈ s.globalQueue p, s.kind c = some p.kind
  threads : ∀ t, ThreadFits s.kind (s.thread t)
  assertFailed : s.assertFailed = false
  aborted : s.aborted = false

theorem kind_eq {s : State T C} {c : C} {r : Coroutine C} (h : s.coroutine c = some r) :
    s.kind c = some r.threadPoolKind := by
  unfold State.kind
  rw [h, Option.map_some]

theorem ThreadFits.congr {kind kind' : C → Option ThreadPoolKind} {th : Thread C}
    (h : ThreadFits kind th) (hkind : ∀ c k, kind c = some k → kind' c = some k) :
    ThreadFits kind' th := by
  refine ⟨fun c hc => ?_, fun f hf hneeds => ?_⟩
  · obtain ⟨p, hp, hk⟩ := h.localQueue c hc
    exact ⟨p, hp, hkind _ _ hk⟩
  · obtain ⟨p, hp, hk⟩ := h.frames f hf hneeds
    exact ⟨p, hp, hkind _ _ hk⟩

theorem Inv.setGlobalQueue {s : State T C} (h : Inv s) {p : Pool} {q : List C}
    (hq : ∀ c ∈ q, s.kind c = some p.kind) :
    Inv { s with globalQueue := Function.update s.globalQueue p q } := by
  refine ⟨h.kinds, fun p' c hc => ?_, h.threads, h.assertFailed, h.aborted⟩
  dsimp only at hc
  by_cases hp : p' = p
  · subst hp
    rw [Function.update_self] at hc
    exact hq c hc
  · rw [Function.update_of_ne hp] at hc
    exact h.globalQueue _ _ hc

theorem top_eq {s : State T C} {t : T} {f : Frame C} {rest : List (Frame C)} {r : Coroutine C}
    (hs : s.top t = some (f, rest, r)) :
    (s.thread t).frames = f :: rest ∧ s.coroutine f.coroutine = some r := by
  unfold State.top at hs
  split at hs
  · cases hs
  · next g gs hframes =>
      obtain ⟨r', hr', he⟩ := Option.map_eq_some_iff.mp hs
      obtain ⟨rfl, rfl, rfl⟩ : g = f ∧ gs = rest ∧ r' = r := by simpa using he
      exact ⟨hframes, hr'⟩

section Threads

variable [DecidableEq T] {s s' : State T C} {t : T} {f : Frame C} {rest : List (Frame C)}

theorem Inv.put {th : Thread C} (h : Inv s) (hth : ThreadFits s.kind th) : Inv (s.put t th) := by
  refine ⟨h.kinds, h.globalQueue, fun u => ?_, h.assertFailed, h.aborted⟩
  change ThreadFits s.kind (Function.update s.thread t th u)
  by_cases hu : u = t
  · subst hu
    rwa [Function.update_self]
  · rw [Function.update_of_ne hu]
    exact h.threads u

theorem Inv.enter {stage : Stage C} (h : Inv s) (hrest : ∀ g ∈ rest, g ∈ (s.thread t).frames)
    (hstage : stage.needsPool → OnPool (s.thread t).currentThreadPool (s.kind f.coroutine)) :
    Inv (s.enter t f rest stage) := by
  apply h.put
  refine ⟨(h.threads t).localQueue, fun g hg hneeds => ?_⟩
  rcases List.mem_cons.mp hg with rfl | hg
  · exact hstage hneeds
  · exact (h.threads t).frames g (hrest g hg) hneeds

theorem Inv.leave (h : Inv s) (hrest : ∀ g ∈ rest, g ∈ (s.thread t).frames) :
    Inv (s.leave t f rest) :=
  h.put ⟨(h.threads t).localQueue, fun g hg => (h.threads t).frames g (hrest g hg)⟩

theorem Inv.setCurrentCoroutine (h : Inv s) (c : Option C) :
    Inv (s.setCurrentCoroutine t c) :=
  h.put ⟨(h.threads t).localQueue, (h.threads t).frames⟩

theorem thread_setCurrentCoroutine (c : Option C) :
    (s.setCurrentCoroutine t c).thread t = { s.thread t with currentCoroutine := c } := by
  exact Function.update_self ..

theorem Inv.setCurrentEnter {c : Option C} {stage : Stage C} (h : Inv s)
    (hrest : ∀ g ∈ rest, g ∈ (s.thread t).frames)
    (hstage : stage.needsPool → OnPool (s.thread t).currentThreadPool (s.kind f.coroutine)) :
    Inv ((s.setCurrentCoroutine t c).enter t f rest stage) := by
  apply (h.setCurrentCoroutine c).enter
  · rwa [thread_setCurrentCoroutine]
  · rwa [thread_setCurrentCoroutine]

/-- A coroutine is scheduled on its own pool, so `ThreadPool::threadPool` finds one. -/
theorem Inv.schedule {c : C} (h : Inv s) (hs : s.schedule t c = some s') : Inv s' := by
  obtain ⟨r, hr, rfl⟩ := Option.map_eq_some_iff.mp hs
  have hk : s.kind c = some r.threadPoolKind := kind_eq hr
  obtain ⟨p, hp, hkind⟩ := threadPool_eq_some fun hc => h.kinds c (hk.trans (congrArg some hc))
  rw [hkind] at hk
  simp only [hp]
  split_ifs with hq
  · apply h.setGlobalQueue
    intro c' hc'
    rcases List.mem_append.mp hc' with hc' | hc'
    · exact h.globalQueue _ _ hc'
    · rw [List.mem_singleton.mp hc', hk]
  · apply h.put
    refine ⟨fun c' hc' => ?_, (h.threads t).frames⟩
    obtain ⟨hpool, -⟩ := not_or.mp hq
    rcases List.mem_append.mp hc' with hc' | hc'
    · exact (h.threads t).localQueue c' hc'
    · rw [List.mem_singleton.mp hc']
      exact ⟨p, not_not.mp hpool, hk⟩

theorem frames_schedule {c : C} (hs : s.schedule t c = some s') :
    (s'.thread t).frames = (s.thread t).frames := by
  obtain ⟨r, -, rfl⟩ := Option.map_eq_some_iff.mp hs
  split
  · rfl
  · split_ifs
    · rfl
    · simp [State.put]

theorem Inv.scheduleAndLeave {c : C} (h : Inv s)
    (hrest : ∀ g ∈ rest, g ∈ (s.thread t).frames)
    (hs : s.scheduleAndLeave t f rest c = some s') : Inv s' := by
  obtain ⟨s₁, h₁, rfl⟩ := Option.map_eq_some_iff.mp hs
  apply (h.schedule h₁).leave
  rwa [frames_schedule h₁]

theorem Inv.dequeue {p : Pool} {victim : Option T} {c : C} (h : Inv s)
    (hpool : (s.thread t).currentThreadPool = some p)
    (hs : s.dequeue t p victim = some (c, s')) :
    Inv s' ∧ s'.kind c = some p.kind ∧ (s'.thread t).currentThreadPool = some p ∧
      (s'.thread t).frames = (s.thread t).frames := by
  cases victim with
  | none =>
      unfold State.dequeue at hs
      dsimp only at hs
      split at hs
      · cases hs
      · next c' q hq =>
          cases hs
          have hmem := h.globalQueue p
          rw [hq] at hmem
          exact ⟨h.setGlobalQueue fun c hc => hmem c (List.mem_cons_of_mem _ hc),
            hmem _ List.mem_cons_self, hpool, rfl⟩
  | some u =>
      obtain ⟨⟨hu, -⟩, hs⟩ := Option.ite_none_right_eq_some.mp hs
      split at hs
      · cases hs
      · next c' q hq =>
          cases hs
          have hmem := (h.threads u).localQueue
          rw [hq] at hmem
          obtain ⟨p', hp', hk⟩ := hmem _ List.mem_cons_self
          obtain rfl : p' = p := Option.some.inj (hp'.symm.trans hu)
          refine ⟨h.put ⟨fun c hc => hmem c (List.mem_cons_of_mem _ hc), (h.threads u).frames⟩,
            hk, ?_⟩
          unfold State.put
          dsimp only
          by_cases ht : t = u
          · subst ht
            rw [Function.update_self]
            exact ⟨hpool, rfl⟩
          · rw [Function.update_of_ne ht]
            exact ⟨hpool, rfl⟩

end Threads

section Coroutines

variable [DecidableEq C] {s s' : State T C}

@[simp] theorem kind_edit (c : C) {g : Coroutine C → Coroutine C}
    (hg : ∀ r, (g r).threadPoolKind = r.threadPoolKind) : (s.edit c g).kind = s.kind := by
  funext c'
  unfold State.edit State.kind
  dsimp only
  by_cases hc : c' = c
  · subst hc
    rw [Function.update_self, Option.map_map]
    exact congrArg (fun k => (s.coroutine c').map k) (funext hg)
  · rw [Function.update_of_ne hc]

theorem Inv.edit (h : Inv s) (c : C) {g : Coroutine C → Coroutine C}
    (hg : ∀ r, (g r).threadPoolKind = r.threadPoolKind) : Inv (s.edit c g) := by
  have hkind : (s.edit c g).kind = s.kind := kind_edit c hg
  refine ⟨fun c => ?_, fun p c hc => ?_, fun t => ?_, h.assertFailed, h.aborted⟩
  · rw [hkind]
    exact h.kinds c
  · rw [hkind]
    exact h.globalQueue p c hc
  · rw [hkind]
    exact h.threads t

variable [DecidableEq T] {t : T} {f : Frame C} {rest : List (Frame C)} {r : Coroutine C}

theorem Inv.editEnter {c : C} {g : Coroutine C → Coroutine C} {stage : Stage C} (h : Inv s)
    (hg : ∀ r, (g r).threadPoolKind = r.threadPoolKind)
    (hrest : ∀ g ∈ rest, g ∈ (s.thread t).frames)
    (hstage : stage.needsPool → OnPool (s.thread t).currentThreadPool (s.kind f.coroutine)) :
    Inv ((s.edit c g).enter t f rest stage) := by
  apply (h.edit c hg).enter hrest
  rwa [kind_edit c hg]

theorem Inv.resume {c : C} {restores : Option (Option C)} (h : Inv s)
    (hpool : OnPool (s.thread t).currentThreadPool (s.kind c))
    (hrest : ∀ g ∈ rest, g ∈ (s.thread t).frames)
    (hs : s.resume t c restores rest = some s') : Inv s' := by
  obtain ⟨stage, -, rfl⟩ := Option.map_eq_some_iff.mp hs
  have hedit : Inv (s.edit c fun r => { r with awaiter := none }) := h.edit c fun _ => rfl
  have hkind : (s.edit c fun r => { r with awaiter := none }).kind = s.kind :=
    kind_edit c fun _ => rfl
  apply hedit.put
  rw [hkind]
  refine ⟨(h.threads t).localQueue, fun g hg hneeds => ?_⟩
  rcases List.mem_cons.mp hg with rfl | hg
  · exact hpool
  · exact (h.threads t).frames g (hrest g hg) hneeds

/-- The handle of another coroutine is returned after a check of its kind; a
coroutine that goes on by itself was on its pool already. -/
theorem Inv.conclude {a : Awaiter C} {o : Outcome C} (h : Inv s)
    (hrest : ∀ g ∈ rest, g ∈ (s.thread t).frames)
    (hself : o = .self → OnPool (s.thread t).currentThreadPool (s.kind f.coroutine))
    (hs : s.conclude t f rest a o = some s') : Inv s' := by
  cases o with
  | self =>
      cases hs
      exact h.editEnter (fun _ => rfl) hrest fun _ => hself rfl
  | stay =>
      cases hs
      exact h.leave hrest
  | schedule c => exact h.scheduleAndLeave hrest hs
  | transfer c =>
      unfold State.conclude at hs
      dsimp only at hs
      split_ifs at hs with hcheck
      · apply h.resume _ hrest hs
        rw [hcheck]
        exact OnPool.of_check (fun hc => h.kinds c (hcheck.trans (congrArg some hc))) rfl
      · exact h.scheduleAndLeave hrest hs

theorem Inv.markTask {c : C} {advice : SuspensionAdvice} (h : Inv s)
    (hrest : ∀ g ∈ rest, g ∈ (s.thread t).frames)
    (hpool : OnPool (s.thread t).currentThreadPool (s.kind f.coroutine))
    (hs : s.markTask t f rest c advice = some s') : Inv s' := by
  obtain ⟨r, -, hs⟩ := Option.bind_eq_some_iff.mp hs
  split_ifs at hs
  · cases hs
    exact h.editEnter (fun _ => rfl) hrest fun _ => hpool
  · exact h.conclude hrest (fun _ => hpool) hs

end Coroutines

section Steps

variable [DecidableEq T] [DecidableEq C] {s s' : State T C} {t : T} {f : Frame C}
  {rest : List (Frame C)} {r : Coroutine C}

/-- Until it is suspended in its creation nobody else has the handle. -/
theorem create_cases {c : C} {taskKind : TaskKind} {requested : ThreadPoolKind} {reads : Reads}
    (hs : s.create t c taskKind requested reads = some s') :
    s.coroutine c = none ∧ ∃ s₁ : State T C,
      s₁ = { s with
        coroutine := Function.update s.coroutine c (some (s.construct t taskKind requested)) } ∧
      (s' = s₁ ∨ ∃ stage : Stage C, ¬stage.needsPool ∧
        s' = s₁.put t { s.thread t with frames := ⟨c, stage, none⟩ :: (s.thread t).frames }) := by
  have hfresh : s.coroutine c = none := by
    unfold State.create at hs
    dsimp only at hs
    split at hs
    · cases hs
    · assumption
    · assumption
  refine ⟨hfresh, _, rfl, ?_⟩
  obtain ⟨r, hr⟩ : ∃ r, s.construct t taskKind requested = r := ⟨_, rfl⟩
  unfold State.create at hs
  dsimp only at hs
  rw [hfresh, hr] at hs
  rw [hr]
  have hstatus : r.status = notStarted := by rw [← hr]; rfl
  split at hs
  · cases hs
  · cases hs
    exact .inl rfl
  · obtain ⟨a, ha, rfl⟩ := Option.map_eq_some_iff.mp hs
    have hinitial : a = .initial ∨ a = .threadPool := by
      rw [← hr] at ha
      have ha := Option.some.inj ha
      split_ifs at ha
      · exact .inr ha.symm
      · exact .inl ha.symm
    refine .inr ⟨_, fun hneeds => ?_, rfl⟩
    unfold State.onReady State.onSuspend at hneeds
    dsimp only at hneeds
    rw [hstatus, awaitReady_creation hinitial onReady_notStarted, if_neg nofun] at hneeds
    rcases hinitial with rfl | rfl
    · exact onSuspend_notStarted hneeds
    · exact onSuspend_notStarted hneeds

theorem Inv.create {c : C} {taskKind : TaskKind} {requested : ThreadPoolKind} {reads : Reads}
    (h : Inv s) (hs : s.create t c taskKind requested reads = some s') : Inv s' := by
  obtain ⟨hfresh, s₁, hs₁, hs'⟩ := create_cases hs
  obtain ⟨r, hr⟩ : ∃ r, s.construct t taskKind requested = r := ⟨_, rfl⟩
  rw [hr] at hs₁
  have hk : r.threadPoolKind ≠ .current := by
    rw [← hr]
    apply determineThreadPoolKind_ne_current
    intro hk
    obtain ⟨c', -, hc'⟩ := Option.bind_eq_some_iff.mp hk
    exact h.kinds c' hc'
  have hold : ∀ c' k, s.kind c' = some k → s₁.kind c' = some k := by
    intro c' k hc'
    rw [hs₁]
    unfold State.kind at hc' ⊢
    dsimp only
    rw [Function.update_of_ne, hc']
    rintro rfl
    rw [hfresh] at hc'
    cases hc'
  have hinv : Inv s₁ := by
    subst hs₁
    refine ⟨fun c' => ?_, fun p c' hc' => hold _ _ (h.globalQueue p c' hc'),
      fun u => (h.threads u).congr hold, h.assertFailed, h.aborted⟩
    by_cases hc : c' = c
    · subst hc
      unfold State.kind
      dsimp only
      rw [Function.update_self]
      exact fun hc => hk (Option.some.inj hc)
    · unfold State.kind
      dsimp only
      rw [Function.update_of_ne hc]
      exact h.kinds c'
  have hthread : s₁.thread t = s.thread t := by rw [hs₁]
  rcases hs' with rfl | ⟨stage, hstage, rfl⟩
  · exact hinv
  · rw [← hthread]
    apply hinv.put
    refine ⟨(hinv.threads t).localQueue, fun g hg hneeds => ?_⟩
    rcases List.mem_cons.mp hg with rfl | hg
    · exact absurd hneeds hstage
    · exact (hinv.threads t).frames g hg hneeds

omit [DecidableEq T] [DecidableEq C] in
theorem needsPool_of_self {a : Awaiter C} {c : C} {advice : SuspensionAdvice} {found : Bool}
    (h : a.awaitSuspend c advice found = .self) : (Stage.suspended a advice).needsPool := by
  cases a with
  | initial | threadPool =>
      unfold Awaiter.awaitSuspend at h
      dsimp only at h
      split_ifs at h with hadvice
      exact hadvice
  | _ => trivial

/-- A call that is not a creation is on its pool wherever it goes on. -/
theorem Inv.run {reads : Reads} (h : Inv s) (hframes : (s.thread t).frames = f :: rest)
    (hr : s.coroutine f.coroutine = some r) (hs : s.run t f rest r reads = some s') : Inv s' := by
  have hrest : ∀ g ∈ rest, g ∈ (s.thread t).frames := fun g hg => by
    rw [hframes]
    exact List.mem_cons_of_mem _ hg
  have hpool : f.stage.needsPool →
      OnPool (s.thread t).currentThreadPool (s.kind f.coroutine) := fun hneeds => by
    apply (h.threads t).frames f _ hneeds
    rw [hframes]
    exact List.mem_cons_self
  unfold State.run at hs
  cases hstage : f.stage with
  | ready a =>
      have hpool := hpool (by rw [hstage]; trivial)
      simp only [hstage] at hs
      cases hs
      split_ifs
      · exact h.setCurrentEnter hrest fun _ => hpool
      · exact h.enter hrest fun _ => hpool
  | advised a advice =>
      have hpool := hpool (by rw [hstage]; trivial)
      simp only [hstage] at hs
      split_ifs at hs
      · split at hs
        · cases hs
          exact h.leave hrest
        · exact h.scheduleAndLeave hrest hs
        · cases hs
          exact h.enter hrest fun _ => hpool
      · cases hs
        exact h.enter hrest fun _ => hpool
  | suspending a =>
      have hpool := hpool (by rw [hstage]; trivial)
      simp only [hstage] at hs
      obtain ⟨status, -, rfl⟩ := Option.map_eq_some_iff.mp hs
      split_ifs
      · refine (h.setCurrentCoroutine none).editEnter (fun _ => rfl) ?_ fun _ => ?_
        · rwa [thread_setCurrentCoroutine]
        · rwa [thread_setCurrentCoroutine]
      · exact h.editEnter (fun _ => rfl) hrest fun _ => hpool
  | suspended a advice =>
      simp only [hstage] at hs
      cases a with
      | task c =>
          have hpool := hpool (by rw [hstage]; trivial)
          dsimp only at hs
          split_ifs at hs
          · exact h.conclude hrest (fun _ => hpool) hs
          · exact h.markTask hrest hpool hs
      | _ =>
          apply h.conclude hrest _ hs
          intro ho
          apply hpool
          rw [hstage]
          exact needsPool_of_self ho
  | marked c advice =>
      have hpool := hpool (by rw [hstage]; trivial)
      simp only [hstage] at hs
      have hedit : Inv (s.edit c fun r => { r with continuation := some f.coroutine }) :=
        h.edit c fun _ => rfl
      refine hedit.conclude hrest (fun ho => ?_) hs
      unfold resumeOther at ho
      split_ifs at ho
  | resuming a =>
      have hpool := hpool (by rw [hstage]; trivial)
      simp only [hstage] at hs
      rw [kind_eq hr] at hpool
      have hcheck : decide (r.threadPoolKind ≠ s.currentKind t) = false := by
        rw [decide_eq_false_iff_not, not_not]
        exact hpool.check
      rw [← kind_eq hr] at hpool
      rw [hcheck, Bool.or_false] at hs
      cases hs
      split
      · next c =>
          have hedit : Inv (s.edit c fun r => { r with continuation := none }) :=
            h.edit c fun _ => rfl
          refine hedit.setCurrentEnter hrest fun _ => ?_
          rw [kind_edit c]
          · exact hpool
          · exact fun _ => rfl
      · exact h.setCurrentEnter hrest fun _ => hpool
  | resumed =>
      have hpool := hpool (by rw [hstage]; trivial)
      simp only [hstage] at hs
      split at hs
      · cases hs
        exact h.enter hrest fun _ => hpool
      · obtain ⟨status, -, rfl⟩ := Option.map_eq_some_iff.mp hs
        exact h.editEnter (fun _ => rfl) hrest fun _ => hpool
  | paused =>
      have hpool := hpool (by rw [hstage]; trivial)
      simp only [hstage] at hs
      split_ifs at hs
      cases hs
      exact h.enter hrest fun _ => hpool
  | body =>
      simp only [hstage] at hs
      cases hs

theorem Inv.bodyStep {a : Action T C} (h : Inv s) (hframes : (s.thread t).frames = f :: rest)
    (hstage : f.stage = .body) (hs : s.bodyStep t f rest r a = some s') : Inv s' := by
  have hrest : ∀ g ∈ rest, g ∈ (s.thread t).frames := fun g hg => by
    rw [hframes]
    exact List.mem_cons_of_mem _ hg
  have hpool : OnPool (s.thread t).currentThreadPool (s.kind f.coroutine) := by
    apply (h.threads t).frames f
    · rw [hframes]
      exact List.mem_cons_self
    · rw [hstage]
      trivial
  cases a with
  | await u a =>
      obtain ⟨-, he⟩ := Option.ite_none_right_eq_some.mp hs
      cases he
      exact h.enter hrest fun _ => hpool
  | yield u =>
      obtain ⟨-, hs⟩ := Option.ite_none_right_eq_some.mp hs
      obtain ⟨status, -, rfl⟩ := Option.map_eq_some_iff.mp hs
      exact h.editEnter (fun _ => rfl) hrest fun _ => hpool
  | finish u =>
      unfold State.bodyStep at hs
      dsimp only at hs
      split at hs
      · cases hs
        exact h.leave hrest
      · obtain ⟨status, -, rfl⟩ := Option.map_eq_some_iff.mp hs
        exact h.editEnter (fun _ => rfl) hrest fun _ => hpool
  | _ => cases hs

theorem Inv.body {a : Action T C} (h : Inv s) (hs : s.body t a = some s') : Inv s' := by
  obtain ⟨⟨f, rest, r⟩, htop, hs⟩ := Option.bind_eq_some_iff.mp hs
  obtain ⟨hstage, hs⟩ := Option.ite_none_right_eq_some.mp hs
  exact h.bodyStep (top_eq htop).1 hstage hs

theorem Inv.work {victim : Option T} (h : Inv s) (hs : s.work t victim = some s') : Inv s' := by
  obtain ⟨⟨c, s₁⟩, htake, hs⟩ := Option.bind_eq_some_iff.mp hs
  obtain ⟨p, hp, htake⟩ := Option.bind_eq_some_iff.mp htake
  obtain ⟨hinv, hk, hpool, hframes⟩ := h.dequeue hp htake
  apply hinv.resume ⟨p, hpool, hk⟩ _ hs
  rw [hframes]
  exact fun g hg => hg

theorem Inv.act {a : Action T C} (h : Inv s) (hs : act s a = some s') : Inv s' := by
  cases a with
  | create t c taskKind requested reads =>
      obtain ⟨-, hs⟩ := Option.ite_none_right_eq_some.mp hs
      exact h.create hs
  | await t a => exact h.body hs
  | yield t => exact h.body hs
  | finish t => exact h.body hs
  | run t reads =>
      obtain ⟨⟨f, rest, r⟩, htop, hs⟩ := Option.bind_eq_some_iff.mp hs
      exact h.run (top_eq htop).1 (top_eq htop).2 hs
  | work t victim => exact h.work hs
  | schedule t c => exact h.schedule hs
  | cancelTaskAwaiter t c =>
      obtain ⟨continuation, -, hs⟩ := Option.bind_eq_some_iff.mp hs
      have hedit : Inv (s.edit c fun r => { r with continuation := none }) :=
        h.edit c fun _ => rfl
      exact hedit.schedule hs
  | setStatus c status isFinalAwaiter =>
      obtain ⟨r, -, hs⟩ := Option.bind_eq_some_iff.mp hs
      obtain ⟨status, -, rfl⟩ := Option.map_eq_some_iff.mp hs
      exact h.edit c fun _ => rfl

theorem inv_of_reach (hs : (system T C).Reach s) : Inv s := by
  refine StepSystem.Reach.invariant (fun s hstart => ?_) (fun s a s' hi ha => ?_) hs
  · obtain ⟨hcoroutine, hglobal, hthread, hassert, haborted⟩ := hstart
    refine ⟨fun c => ?_, fun p c hc => ?_, fun t => ⟨fun c hc => ?_, fun f hf => ?_⟩, hassert,
      haborted⟩
    · unfold State.kind
      rw [hcoroutine c]
      nofun
    · rw [hglobal p] at hc
      cases hc
    · rw [(hthread t).2.1] at hc
      cases hc
    · rw [(hthread t).2.2] at hf
      cases hf
  · obtain ⟨-, ha⟩ := Option.ite_none_left_eq_some.mp ha
    exact hi.act ha

/-- A body runs on the threads of its coroutine's pool; the assertion at the head of
`onResume` holds whenever it is evaluated, and `ThreadPool::threadPool` does not
abort, because no coroutine has the kind `Current`. -/
theorem body_on_own_pool (hs : (system T C).Reach s) :
    s.assertFailed = false ∧ s.aborted = false ∧
      (∀ c r, s.coroutine c = some r → r.threadPoolKind ≠ .current) ∧
      ∀ t, ∀ f ∈ (s.thread t).frames, (f.stage = .body ∨ ∃ a, f.stage = .resuming a) →
        ∃ p, (s.thread t).currentThreadPool = some p ∧ s.kind f.coroutine = some p.kind := by
  have h := inv_of_reach hs
  refine ⟨h.assertFailed, h.aborted, fun c r hr hk => ?_, fun t f hf hstage => ?_⟩
  · apply h.kinds c
    rw [kind_eq hr, hk]
  · apply (h.threads t).frames f hf
    rcases hstage with hstage | ⟨a, hstage⟩
    · rw [hstage]
      trivial
    · rw [hstage]
      trivial

end Steps

/-- An outside thread and one worker of each pool. -/
def threeThreads : State (Fin 3) Bool where
  coroutine _ := none
  thread t :=
    ⟨if t = 0 then none else if t = 1 then some .background else some .default, none, [], []⟩
  globalQueue _ := []
  assertFailed := false
  aborted := false

def calm : Reads := ⟨true, false, false, false, false⟩

/-- A background coroutine awaits a default task, which its thread must not run. -/
theorem body_on_own_pool_awaited : ∃ s : State (Fin 3) Bool, (system (Fin 3) Bool).Reach s ∧
    (s.thread 2).frames = [⟨true, .body, none⟩] ∧ s.assertFailed = false ∧
    ∃ p, (s.thread 2).currentThreadPool = some p ∧ s.kind true = some p.kind := by
  obtain ⟨s, hs, hframes⟩ := StepSystem.Reach.exists_of_exec (M := system (Fin 3) Bool)
    (P := fun s => (s.thread 2).frames = [⟨true, .body, none⟩]) (s := threeThreads)
    (.start ⟨fun _ => rfl, fun _ => rfl, fun _ => ⟨rfl, rfl, rfl⟩, rfl, rfl⟩)
    ([.create 0 false .async .background calm, .run 0 calm, .work 1 none, .run 1 calm,
        .run 1 calm, .create 1 true .task .default calm, .run 1 calm, .await 1 (.task true)] ++
      List.replicate 5 (.run 1 calm) ++ [.work 2 none, .run 2 calm, .run 2 calm]) (by decide)
  have h := body_on_own_pool hs
  have hmem : (⟨true, .body, none⟩ : Frame Bool) ∈ (s.thread 2).frames := by
    rw [hframes]
    exact List.mem_cons_self
  exact ⟨s, hs, hframes, h.1, h.2.2.2 2 _ hmem (.inl rfl)⟩

end LevelzAsync.PoolAffinity
