import LevelzAsync.AsyncMutexSafety
import LevelzAsync.MutexDestructor

/-!
# Destroying a mutex after its last user

When the destructor begins, nobody has the mutex or waits for it, and every call
in flight has only some looks at it left. Those of `lock` are counted in the
scope. The last dequeue of an `unlock` that has set the owner word to null is not,
and neither are the looks of `remove` and of the `unlock` of a coroutine that
never had the mutex.
-/

namespace LevelzAsync.MutexDestructor

open AsyncMutex (Call Caller)

variable {Thread Co : Type*}

def accesses : Call Co → Bool
  | .lockLoad _ _ | .lockEnqueue _ _ | .lockReload _ | .lockDequeue _ | .lockCas _ _
  | .unlockLoad _ | .unlockStranger _ | .unlockCancelled _ | .unlockRelease _ | .unlockDequeue _
  | .unlockClear _ | .unlockDequeueAgain _ | .handOff _ _ | .drainDequeue (.owned _)
  | .drainDequeue (.released _) | .removeCount _ | .removeDequeue _ _ | .removeEnqueue _ _ _
  | .removeCheckOwner _ _ | .removeDequeueNext _ _ => true
  | _ => false

/-- An access of `remove`, or of an `unlock` that has set the owner word to null or
that is not the owner's. -/
def looksAgain : Call Co → Bool
  | .unlockLoad _ | .unlockStranger _ | .unlockDequeueAgain _ | .drainDequeue (.released _)
  | .removeCount _ | .removeDequeue _ _ | .removeEnqueue _ _ _ | .removeCheckOwner _ _
  | .removeDequeueNext _ _ => true
  | _ => false

/-- Nobody has the mutex or waits for it. -/
structure Left (m : AsyncMutex.State Thread Co) : Prop where
  owner : m.owner = none
  waitList : m.waitList = []
  co : ∀ c, m.co c = .outside ∨ m.co c = .unlocking
  call : ∀ t, (m.call t).held = [] ∧ (m.call t).owns = none

theorem looks_of_accesses {p : Call Co} (h : accesses p = true) (hheld : p.held = [])
    (howns : p.owns = none) : looksAgain p = true ∨ pastLoad p = true := by
  cases p with
  | drainDequeue drain =>
      cases drain with
      | owned c => cases howns
      | released c => exact .inl rfl
      | cancel => cases h
  | _ =>
      first
        | exact .inl rfl
        | exact .inr rfl
        | (cases hheld; done)
        | (cases howns; done)
        | cases h

variable [DecidableEq Thread] [DecidableEq Co] {m m' : AsyncMutex.State Thread Co} {t : Thread}

omit [DecidableEq Thread] in
theorem Left.of_inv [Fintype Thread] (hi : AsyncMutex.Inv m) (howner : m.owner = none)
    (hco : ∀ c, m.co c = .outside ∨ m.co c = .unlocking) : Left m := by
  have hwaits : ∀ c, m.co c ≠ .waiting := fun c hc => by
    rcases hco c with h | h <;> rw [h] at hc <;> cases hc
  refine ⟨howner, ?_, hco, fun t => ⟨?_, ?_⟩⟩
  · by_contra hne
    obtain ⟨c, hc⟩ := List.exists_mem_of_ne_nil _ hne
    have hcustody := hi.custody c
    rw [AsyncMutex.State.waits, if_neg (hwaits c)] at hcustody
    have := List.count_pos_iff.mpr hc
    omega
  · by_contra hne
    obtain ⟨c, hc⟩ := List.exists_mem_of_ne_nil _ hne
    exact hwaits c (hi.waiting_of_held hc)
  · by_contra hne
    obtain ⟨c, hc⟩ := Option.ne_none_iff_exists'.mp hne
    have := hi.owns t c hc
    rw [howner] at this
    cases this

/-- What a step of a call does when nobody has the mutex or waits for it. -/
structure Fades (m m' : AsyncMutex.State Thread Co) (t : Thread) (p : Call Co) : Prop where
  call : m'.call = Function.update m.call t p
  owner : m'.owner = none
  waitList : m'.waitList = []
  co : ∀ c, m'.co c = .outside ∨ m'.co c = .unlocking
  held : p.held = []
  owns : p.owns = none
  accesses : accesses (m.call t) = false → accesses p = false

omit [DecidableEq Co] in
theorem Left.of_fades {p : Call Co} (h : Left m) (hf : Fades m m' t p) : Left m' := by
  refine ⟨hf.owner, hf.waitList, hf.co, fun u => ?_⟩
  by_cases hu : u = t
  · rw [hu, hf.call, Function.update_self]
    exact ⟨hf.held, hf.owns⟩
  · rw [hf.call, Function.update_of_ne hu]
    exact h.call u

omit [DecidableEq Co] in
theorem Left.go {p : Call Co} (h : Left m) (hheld : p.held = []) (howns : p.owns = none)
    (haccesses : accesses (m.call t) = true ∨ accesses p = false) : Fades m (m.goCall t p) t p where
  call := rfl
  owner := h.owner
  waitList := h.waitList
  co := h.co
  held := hheld
  owns := howns
  accesses hf := haccesses.resolve_left fun ht => by rw [hf] at ht; cases ht

theorem Left.goOut {c : Co} (h : Left m) :
    Fades m ((m.goCall t .idle).goCo c .outside) t .idle where
  call := rfl
  owner := h.owner
  waitList := h.waitList
  co d := by
    by_cases hd : d = c
    · exact .inl (by rw [hd]; exact Function.update_self ..)
    · show Function.update m.co c .outside d = _ ∨ Function.update m.co c .outside d = _
      rw [Function.update_of_ne hd]
      exact h.co d
  held := rfl
  owns := rfl
  accesses _ := rfl

theorem Left.callStep {spurious : Bool} {bound : ℕ} (h : Left m)
    (ha : AsyncMutex.callStep m t spurious bound (m.call t) = some m') :
    ∃ p, Fades m m' t p := by
  obtain ⟨hheld, howns⟩ := h.call t
  have howner := h.owner
  have hlist := h.waitList
  have hreturn : ∀ {caller : Caller Co}, accesses (m.call t) = true → caller.held = [] →
      ∃ p, Fades m (m.returnLock t caller) t p := fun {caller} hacc hcaller => by
    cases caller with
    | awaiter => exact ⟨_, h.go rfl rfl (.inl hacc)⟩
    | unlock c => exact ⟨_, h.goOut⟩
    | remove c removed =>
        cases removed with
        | false => exact ⟨_, h.go rfl rfl (.inl hacc)⟩
        | true => cases hcaller
  cases hp : m.call t with
  | idle =>
      rw [hp] at ha
      cases ha
  | lockReload caller =>
      rw [hp] at ha hheld
      simp only [AsyncMutex.callStep, howner, if_true, Option.some.injEq] at ha
      subst ha
      exact ⟨_, h.go hheld rfl (.inl (by rw [hp]; rfl))⟩
  | lockDequeue caller =>
      rw [hp] at ha hheld
      simp only [AsyncMutex.callStep, hlist, Option.some.injEq] at ha
      subst ha
      exact hreturn (by rw [hp]; rfl) hheld
  | unlockLoad c =>
      rw [hp] at ha
      simp only [AsyncMutex.callStep, howner, reduceCtorEq, if_false, Option.some.injEq] at ha
      subst ha
      exact ⟨_, h.go rfl rfl (.inl (by rw [hp]; rfl))⟩
  | unlockStranger c =>
      rw [hp] at ha
      cases ha
      split_ifs
      · exact ⟨_, h.go rfl rfl (.inr rfl)⟩
      · exact ⟨_, h.goOut⟩
  | unlockMarkStranger c =>
      rw [hp] at ha
      cases ha
      have hf := h.goOut (t := t) (c := c)
      exact ⟨.idle, hf.call, hf.owner, hf.waitList, hf.co, rfl, rfl, fun _ => rfl⟩
  | unlockDequeueAgain c =>
      rw [hp] at ha
      simp only [AsyncMutex.callStep, hlist, Option.some.injEq] at ha
      subst ha
      exact ⟨_, h.goOut⟩
  | drainDequeue drain =>
      rw [hp] at ha howns
      simp only [AsyncMutex.callStep, hlist, Option.some.injEq] at ha
      subst ha
      cases drain with
      | owned c => cases howns
      | released c => exact ⟨_, h.goOut⟩
      | cancel => exact ⟨_, h.go rfl rfl (.inr rfl)⟩
  | cancelMark =>
      rw [hp] at ha
      cases ha
      have hf := h.go (t := t) (p := .drainDequeue .cancel) rfl rfl (.inr rfl)
      exact ⟨_, hf.call, hf.owner, hf.waitList, hf.co, rfl, rfl, fun _ => rfl⟩
  | removeCount c =>
      rw [hp] at ha
      cases ha
      exact ⟨_, h.go rfl rfl (.inl (by rw [hp]; rfl))⟩
  | removeDequeue c left =>
      rw [hp] at ha
      cases left <;>
      · simp only [AsyncMutex.callStep, hlist, Option.some.injEq] at ha
        subst ha
        exact ⟨_, h.go rfl rfl (.inl (by rw [hp]; rfl))⟩
  | removeCheckOwner c removed =>
      rw [hp] at ha hheld
      simp only [AsyncMutex.callStep, howner, if_true, Option.some.injEq] at ha
      subst ha
      cases removed with
      | true => cases hheld
      | false => exact ⟨_, h.go rfl rfl (.inl (by rw [hp]; rfl))⟩
  | removeDequeueNext c removed =>
      rw [hp] at ha hheld
      simp only [AsyncMutex.callStep, hlist, Option.some.injEq] at ha
      subst ha
      cases removed with
      | true => cases hheld
      | false => exact ⟨_, h.go rfl rfl (.inr rfl)⟩
  | _ =>
      rw [hp] at hheld howns
      first
        | (cases hheld; done)
        | cases howns

theorem returnLock_call (m : AsyncMutex.State Thread Co) (t : Thread) (caller : Caller Co) :
    ∃ p, (m.returnLock t caller).call = Function.update m.call t p := by
  cases caller <;> exact ⟨_, rfl⟩

/-- Only a step inside `lock` leads to a step of `lock` past its first look. -/
theorem callStep_pastLoad {spurious : Bool} {bound : ℕ}
    (ha : AsyncMutex.callStep m t spurious bound (m.call t) = some m') :
    ∃ p, m'.call = Function.update m.call t p ∧
      (pastLoad p = true → inLock (m.call t) = true) := by
  have hreturn : ∀ {m₁ : AsyncMutex.State Thread Co} {caller : Caller Co}, m₁.call = m.call →
      inLock (m.call t) = true → ∃ p, (m₁.returnLock t caller).call = Function.update m.call t p ∧
        (pastLoad p = true → inLock (m.call t) = true) := fun {m₁ caller} hcall hl => by
    obtain ⟨p, hp⟩ := returnLock_call m₁ t caller
    exact ⟨p, hcall ▸ hp, fun _ => hl⟩
  cases hp : m.call t with
  | idle =>
      rw [hp] at ha
      cases ha
  | lockReload caller =>
      rw [hp] at ha hreturn
      cases ha
      split_ifs
      · exact ⟨_, rfl, fun _ => rfl⟩
      · exact hreturn rfl rfl
  | lockDequeue caller =>
      rw [hp] at ha hreturn
      cases ha
      split
      · exact ⟨_, rfl, fun _ => rfl⟩
      · exact hreturn rfl rfl
  | lockSchedule next caller =>
      rw [hp] at ha hreturn
      cases ha
      exact hreturn rfl rfl
  | lockLoad | lockEnqueue =>
      rw [hp] at ha
      cases ha
      exact ⟨_, rfl, fun _ => rfl⟩
  | lockCas next caller =>
      rw [hp] at ha
      cases ha
      split_ifs <;> exact ⟨_, rfl, fun _ => rfl⟩
  | unlockLoad | unlockStranger | unlockCancelled | removeCheckOwner =>
      rw [hp] at ha
      cases ha
      split_ifs <;> exact ⟨_, rfl, nofun⟩
  | unlockDequeue | unlockDequeueAgain =>
      rw [hp] at ha
      cases ha
      split <;> exact ⟨_, rfl, nofun⟩
  | removeDequeueNext c removed =>
      rw [hp] at ha
      cases ha
      split
      · exact ⟨_, rfl, nofun⟩
      · refine ⟨_, rfl, ?_⟩
        split_ifs <;> nofun
  | drainDequeue drain =>
      rw [hp] at ha
      cases ha
      split
      · exact ⟨_, rfl, nofun⟩
      · cases drain <;> exact ⟨_, rfl, nofun⟩
  | removeDequeue c left =>
      rw [hp] at ha
      cases left with
      | zero =>
          cases ha
          exact ⟨_, rfl, nofun⟩
      | succ left =>
          cases ha
          dsimp only
          split
          · exact ⟨_, rfl, nofun⟩
          · refine ⟨_, rfl, ?_⟩
            split_ifs <;> nofun
  | _ =>
      rw [hp] at ha
      cases ha
      exact ⟨_, rfl, nofun⟩

omit [DecidableEq Co] in
theorem pastLoad_of_begin {p : Call Co} {u : Thread} (hcall : m'.call = Function.update m.call t p)
    (hp : pastLoad p = false) (hu : pastLoad (m'.call u) = true) : pastLoad (m.call u) = true := by
  rcases agent_cases (Q := fun p => pastLoad p = true) hcall hu with ⟨-, hu⟩ | ⟨-, hu⟩
  · rw [hp] at hu
    cases hu
  · exact hu

omit [DecidableEq Thread] in
theorem coStep_call {c : Co} {mayChain spurious shutdown : Bool}
    (ha : AsyncMutex.coStep m c mayChain spurious shutdown (m.co c) = some m') :
    m'.call = m.call := by
  cases hp : m.co c with
  | tryCas =>
      rw [hp] at ha
      simp only [AsyncMutex.coStep] at ha
      split_ifs at ha <;> cases ha <;> rfl
  | onResumeShutdown =>
      rw [hp] at ha
      cases ha
      split_ifs <;> rfl
  | _ =>
      rw [hp] at ha
      cases ha <;> rfl

def LastUser (s : State Thread Co) : Action Thread Co → Prop
  | .destroy =>
      s.mutex.owner = none ∧ ∀ c, s.mutex.co c = .outside ∨ s.mutex.co c = .unlocking
  | _ => True

section Runs

variable [Fintype Thread] {s s' : State Thread Co}

/-- When the destructor finds the scope empty at last, no look is left that the scope does
not count, and the counter has not gone round. -/
def Covered (s : State Thread Co) : Action Thread Co → Prop
  | .destructor => s.destructor = .scopeWaitTillEmpty → s.scope.isEmpty = true →
      (∀ t, looksAgain (s.mutex.call t) = false) ∧ s.scope.entered < 256
  | _ => True

structure Inv (s : State Thread Co) : Prop where
  reach : s.destructor = .idle → (AsyncMutex.system Thread Co).Reach s.mutex
  scope : s.scope.Counts
  locked : ∀ t, pastLoad (s.mutex.call t) = true → s.scope.inside t = true
  left : s.destructor ≠ .idle → Left s.mutex
  drained : ∀ c, s.destructor ≠ .setCancelled c ∧ s.destructor ≠ .schedule c
  returned : s.destructor = .returned →
    ∀ t, accesses (s.mutex.call t) = false ∧ s.scope.inside t = false

theorem Inv.call {spurious : Bool} {bound : ℕ} (h : Inv s)
    (hin : inLock (s.mutex.call t) = true → s.scope.inside t = true)
    (ha : mutexStep s (.call t spurious bound) = some s') : Inv s' := by
  obtain ⟨mutex, hstep, rfl⟩ := Option.map_eq_some_iff.mp ha
  refine ⟨fun hd => .step (a := .call t spurious bound) (h.reach hd) hstep, h.scope,
    fun u hu => ?_, fun hd => ?_, h.drained,
    fun hd u => ⟨?_, (h.returned hd u).2⟩⟩
  · obtain ⟨p, hcall, hp⟩ := callStep_pastLoad hstep
    rcases agent_cases (Q := fun p => pastLoad p = true) hcall hu with ⟨rfl, hu⟩ | ⟨-, hu⟩
    · exact hin (hp hu)
    · exact h.locked u hu
  · obtain ⟨p, hf⟩ := (h.left hd).callStep hstep
    exact (h.left hd).of_fades hf
  · have hleft := h.left (by rw [hd]; nofun)
    obtain ⟨p, hf⟩ := hleft.callStep hstep
    by_contra hn
    rcases agent_cases (Q := fun p => accesses p = true) hf.call (by simpa using hn) with
      ⟨-, hu⟩ | ⟨-, hu⟩
    · rw [hf.accesses (h.returned hd t).1] at hu
      cases hu
    · rw [(h.returned hd u).1] at hu
      cases hu

theorem Inv.callStep {spurious : Bool} {bound : ℕ} (h : Inv s)
    (ha : callStep s t spurious bound = some s') : Inv s' := by
  rw [MutexDestructor.callStep] at ha
  split at ha
  · rename_i next caller hcall hin
    cases ha
    refine ⟨h.reach, h.scope.onEnter hin, fun u hu => ?_, h.left, h.drained, fun hd u => ?_⟩
    · show Function.update s.scope.inside t true u = true
      rw [Function.update_apply]
      split_ifs
      · rfl
      · exact h.locked u hu
    · have := (h.returned hd t).1
      rw [hcall] at this
      cases this
  · rename_i hin
    split_ifs at ha with hlock
    · exact h.call (fun _ => hin) ha
    · cases ha
      refine ⟨h.reach, h.scope.onExit hin, fun u hu => ?_, h.left, h.drained, fun hd u => ?_⟩
      · have hne : u ≠ t := fun he => by
          rw [he] at hu
          cases hcall : s.mutex.call t <;> rw [hcall] at hu hlock <;>
            first | exact hlock hu | cases hu
        show Function.update s.scope.inside t false u = true
        rw [Function.update_of_ne hne]
        exact h.locked u hu
      · have := (h.returned hd t).2
        rw [hin] at this
        cases this
  · rename_i hload
    refine h.call (fun hlock => h.locked t ?_) ha
    cases hcall : s.mutex.call t <;> rw [hcall] at hlock hload <;>
      first | exact (hload _ _ rfl).elim | exact hlock

theorem Inv.other {a : AsyncMutex.Action Thread Co} (h : Inv s) (ha : mutexStep s a = some s')
    (hcall : ∀ mutex, AsyncMutex.step s.mutex a = some mutex → ∀ t,
      pastLoad (mutex.call t) = true → pastLoad (s.mutex.call t) = true)
    (hleft : s.destructor ≠ .idle → ∀ mutex, AsyncMutex.step s.mutex a = some mutex →
      mutex.call = s.mutex.call ∧ (Left s.mutex → Left mutex)) : Inv s' := by
  obtain ⟨mutex, hstep, rfl⟩ := Option.map_eq_some_iff.mp ha
  refine ⟨fun hd => .step (a := a) (h.reach hd) hstep, h.scope,
    fun t ht => h.locked t (hcall mutex hstep t ht), fun hd => ?_, h.drained, fun hd t => ?_⟩
  · exact (hleft hd mutex hstep).2 (h.left hd)
  · dsimp only
    rw [(hleft (by rw [hd]; nofun) mutex hstep).1]
    exact h.returned hd t

theorem Inv.destructorStep (h : Inv s)
    (hcovered : s.destructor = .scopeWaitTillEmpty → s.scope.isEmpty = true →
      (∀ t, looksAgain (s.mutex.call t) = false) ∧ s.scope.entered < 256)
    (ha : destructorStep s s.destructor = some s') : Inv s' := by
  have hleft := h.left
  cases hd : s.destructor with
  | idle | returned =>
      rw [hd] at ha
      cases ha
  | setCancelled c => exact absurd hd (h.drained c).1
  | schedule c => exact absurd hd (h.drained c).2
  | cancelMark =>
      rw [hd] at ha hleft
      cases ha
      have hl := hleft nofun
      exact ⟨nofun, h.scope, h.locked, fun _ => ⟨hl.owner, hl.waitList, hl.co, hl.call⟩,
        fun _ => ⟨nofun, nofun⟩, nofun⟩
  | dequeue =>
      rw [hd] at ha hleft
      simp only [MutexDestructor.destructorStep, (hleft nofun).waitList, Option.some.injEq] at ha
      subst ha
      exact ⟨nofun, h.scope, h.locked, fun _ => hleft nofun, fun _ => ⟨nofun, nofun⟩, nofun⟩
  | checkOwner =>
      rw [hd] at ha hleft
      simp only [MutexDestructor.destructorStep, (hleft nofun).owner, if_true,
        Option.some.injEq] at ha
      subst ha
      exact ⟨nofun, h.scope, h.locked, fun _ => hleft nofun, fun _ => ⟨nofun, nofun⟩, nofun⟩
  | waitTillEmpty =>
      rw [hd] at ha hleft
      cases ha
      split_ifs <;> exact ⟨nofun, h.scope, h.locked, fun _ => hleft nofun,
        fun _ => ⟨nofun, nofun⟩, nofun⟩
  | scopeWaitTillEmpty =>
      rw [hd] at ha hleft
      cases ha
      have hl := hleft nofun
      split_ifs with hempty
      · refine ⟨nofun, h.scope, h.locked, fun _ => hl, fun _ => ⟨nofun, nofun⟩, fun _ t => ?_⟩
        obtain ⟨hlooks, hlt⟩ := hcovered hd hempty
        have hout := h.scope.inside_eq_false hempty hlt t
        refine ⟨?_, hout⟩
        by_contra hn
        rcases looks_of_accesses (by simpa using hn) (hl.call t).1 (hl.call t).2 with hlook | hlock
        · rw [hlooks t] at hlook
          cases hlook
        · have := h.locked t hlock
          rw [hout] at this
          cases this
      · exact ⟨nofun, h.scope, h.locked, fun _ => hl, fun _ => ⟨nofun, nofun⟩, nofun⟩

theorem Inv.step {a : Action Thread Co} (h : Inv s) (hlast : LastUser s a) (hcovered : Covered s a)
    (ha : step s a = some s') : Inv s' := by
  cases a with
  | destroy =>
      obtain ⟨hd, ha⟩ := Option.ite_none_right_eq_some.mp ha
      obtain rfl := Option.some.inj ha
      exact ⟨nofun, h.scope, h.locked,
        fun _ => .of_inv (AsyncMutex.inv_of_reach (h.reach hd)) hlast.1 hlast.2,
        fun _ => ⟨nofun, nofun⟩, nofun⟩
  | destructor => exact h.destructorStep hcovered ha
  | mutex a =>
      cases a with
      | call t spurious bound => exact h.callStep ha
      | await c =>
          obtain ⟨hd, ha⟩ := Option.ite_none_right_eq_some.mp ha
          refine h.other ha (fun mutex hstep t ht => ?_) fun hne => absurd hd hne
          obtain ⟨-, he⟩ := Option.ite_none_right_eq_some.mp hstep
          cases he
          exact ht
      | lock c t | unlock c t | cancel t | remove c t =>
          obtain ⟨⟨hd, -⟩, ha⟩ := Option.ite_none_right_eq_some.mp ha
          refine h.other ha (fun mutex hstep u hu => ?_) fun hne => absurd hd hne
          obtain ⟨-, he⟩ := Option.ite_none_right_eq_some.mp hstep
          cases he
          exact pastLoad_of_begin rfl rfl hu
      | co c mayChain spurious shutdown =>
          refine h.other ha (fun mutex hstep u hu => ?_) fun hne mutex hstep =>
            ⟨coStep_call hstep, fun hl => ?_⟩
          · rwa [coStep_call hstep] at hu
          · have hstep : AsyncMutex.coStep _ _ _ _ _ _ = _ := hstep
            rcases hl.co c with hc | hc <;> rw [hc] at hstep <;> cases hstep
      | setCancelled c | setAbandoned c =>
          refine h.other ha (fun mutex hstep u hu => ?_) fun _ mutex hstep => ?_ <;> cases hstep
          · exact hu
          · exact ⟨rfl, fun hl => ⟨hl.owner, hl.waitList, hl.co, hl.call⟩⟩

theorem Inv.start (Thread Co : Type*) [Fintype Thread] [DecidableEq Thread] [DecidableEq Co]
    (coCancelled coAbandoned : Co → Bool) :
    Inv (initial coCancelled coAbandoned : State Thread Co) where
  reach _ := .start ⟨coCancelled, coAbandoned, rfl⟩
  scope := AsyncScope.counts_empty
  locked _ := nofun
  left hd := absurd rfl hd
  drained _ := ⟨nofun, nofun⟩
  returned := nofun

/-- The last user may destroy the mutex: no access to it is left when the destructor has
returned, provided that no `unlock` and no `remove` has a look left when the scope is found
empty at last. -/
theorem mutex_unused_after_destruction
    (hs : (system Thread Co).ReachWhile (fun s a => LastUser s a ∧ Covered s a) s)
    (hr : s.destructor = .returned) (t : Thread) :
    accesses (s.mutex.call t) = false ∧ s.scope.inside t = false := by
  have h : Inv s := by
    refine hs.invariant (I := Inv) ?_ fun s a s' h hg ha => h.step hg.1 hg.2 ha
    rintro s ⟨coCancelled, coAbandoned, rfl⟩
    exact Inv.start Thread Co coCancelled coAbandoned
  exact h.returned hr t

instance (s : State Thread Co) (a : Action Thread Co) : Decidable (Covered s a) :=
  match a with
  | .destructor => inferInstanceAs (Decidable (s.destructor = .scopeWaitTillEmpty →
      s.scope.isEmpty = true →
      (∀ t, looksAgain (s.mutex.call t) = false) ∧ s.scope.entered < 256))
  | .mutex _ | .destroy => inferInstanceAs (Decidable True)

end Runs

instance [Fintype Co] (s : State Thread Co) (a : Action Thread Co) : Decidable (LastUser s a) :=
  match a with
  | .destroy => inferInstanceAs (Decidable (s.mutex.owner = none ∧
      ∀ c, s.mutex.co c = .outside ∨ s.mutex.co c = .unlocking))
  | .mutex _ | .destructor => inferInstanceAs (Decidable True)

/-- A call of `lock` whose coroutine has come and gone: the destructor waits for it. -/
theorem mutex_unused_after_destruction_of_lock : ∃ s : State (Fin 2) (Fin 2),
    s.destructor = .returned ∧ s.mutex.schedules 1 = 1 ∧ accesses (s.mutex.call 1) = false := by
  obtain ⟨s, hs, hr, hschedules⟩ := StepSystem.Reach.exists_of_exec
    (M := (system (Fin 2) (Fin 2)).restrict fun s a => LastUser s a ∧ Covered s a)
    (P := fun s => s.destructor = .returned ∧ s.mutex.schedules 1 = 1)
    (.start ⟨fun _ => false, fun _ => false, rfl⟩)
    (.mutex (.await 0) :: List.replicate 10 (.mutex (.co 0 true false false)) ++
      .mutex (.await 1) :: List.replicate 4 (.mutex (.co 1 false false false)) ++
      .mutex (.lock 1 1) :: List.replicate 3 (.mutex (.call 1 false 0)) ++
      .mutex (.unlock 0 0) :: List.replicate 5 (.mutex (.call 0 false 0)) ++
      List.replicate 5 (.mutex (.co 1 true false false)) ++
      .mutex (.unlock 1 0) :: List.replicate 5 (.mutex (.call 0 false 0)) ++
      .destroy :: List.replicate 4 .destructor ++ List.replicate 3 (.mutex (.call 1 false 0)) ++
      List.replicate 2 .destructor) (by decide +kernel)
  exact ⟨s, hr, hschedules, (mutex_unused_after_destruction hs.reachWhile hr 1).1⟩

/-- An `unlock` has set the owner word to null; another coroutine locks and unlocks and the
mutex is destroyed before the first `unlock` looks at the wait list again. -/
theorem mutex_used_after_destruction :
    ¬ ∀ s : State (Fin 2) (Fin 2), (system (Fin 2) (Fin 2)).ReachWhile LastUser s →
      s.destructor = .returned →
      ∀ t, accesses (s.mutex.call t) = false ∧ s.scope.inside t = false := by
  intro h
  obtain ⟨s, hs, hr, haccesses⟩ := StepSystem.Reach.exists_of_exec
    (M := (system (Fin 2) (Fin 2)).restrict LastUser)
    (P := fun s => s.destructor = .returned ∧ accesses (s.mutex.call 0) = true)
    (.start ⟨fun _ => false, fun _ => false, rfl⟩)
    (.mutex (.await 0) :: List.replicate 10 (.mutex (.co 0 true false false)) ++
      .mutex (.unlock 0 0) :: List.replicate 4 (.mutex (.call 0 false 0)) ++
      .mutex (.await 1) :: List.replicate 10 (.mutex (.co 1 true false false)) ++
      .mutex (.unlock 1 1) :: List.replicate 5 (.mutex (.call 1 false 0)) ++
      .destroy :: List.replicate 5 .destructor) (by decide +kernel)
  rw [(h s hs.reachWhile hr 0).1] at haccesses
  cases haccesses

end LevelzAsync.MutexDestructor
