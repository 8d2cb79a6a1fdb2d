import LevelzAsync.ChainedExecutionBound

/-!
# The current coroutine is the one whose body runs

`onResume` makes a coroutine the current one of its thread, and `onSuspend` or the final
`onReady` resets it. In between the thread may create coroutines, which leaves the
current one alone, and `ThreadPool::yield` may run others on top of the call, after
which it puts back what it has read. So each call on the stack finds its own coroutine
again when the calls above it have returned. The body of a simple task has no `onResume`
and runs with whatever is current.
-/

namespace LevelzAsync.PoolAffinity

open CoroutineStatus

def Stage.current {C : Type*} : Stage C → Bool
  | .resumed | .paused | .body => true
  | _ => false

section Names

variable {C : Type*}

def Stage.Names (simple : C → Bool) (current : Option C) (c : C) (stage : Stage C) : Prop :=
  stage.current = true → simple c = true ∨ current = some c

/-- The current coroutine, and those that are put back when a call returns, are the ones
of the calls underneath. -/
def Names (simple : C → Bool) : Option C → List (Frame C) → Prop
  | _, [] => True
  | current, f :: rest =>
      f.stage.Names simple current f.coroutine ∧
        match f.restores with
        | none => (f.stage.needsPool → rest = []) ∧ Names simple current rest
        | some c => Names simple c rest

variable {simple simple' : C → Bool} {current : Option C} {f : Frame C}
  {frames rest : List (Frame C)}

theorem Stage.Names.mono {c : C} {stage : Stage C} (h : stage.Names simple current c)
    (hsimple : ∀ c, simple c = true → simple' c = true) : stage.Names simple' current c :=
  fun hstage => (h hstage).imp_left (hsimple _)

theorem Names.mono (h : Names simple current frames)
    (hsimple : ∀ c, simple c = true → simple' c = true) : Names simple' current frames := by
  induction frames generalizing current with
  | nil => trivial
  | cons f rest ih =>
      obtain ⟨hf, hrest⟩ := h
      refine ⟨hf.mono hsimple, ?_⟩
      split at hrest
      · exact ⟨hrest.1, ih hrest.2⟩
      · exact ih hrest

theorem Names.goOn {current' : Option C} {c : C} {stage : Stage C}
    (h : Names simple current (f :: rest)) (hpool : f.stage.needsPool)
    (hstage : stage.Names simple current' c) :
    Names simple current' (⟨c, stage, f.restores⟩ :: rest) := by
  obtain ⟨-, hrest⟩ := h
  refine ⟨hstage, ?_⟩
  split at hrest
  · next hnone =>
      obtain rfl : rest = [] := hrest.1 hpool
      dsimp only
      rw [hnone]
      exact ⟨fun _ => rfl, trivial⟩
  · next hsome =>
      dsimp only
      rw [hsome]
      exact hrest

theorem Names.leave (h : Names simple current (f :: rest)) :
    Names simple (f.restores.getD current) rest := by
  obtain ⟨-, hrest⟩ := h
  split at hrest
  · next hnone =>
      rw [hnone]
      exact hrest.2
  · next c hsome =>
      rw [hsome]
      exact hrest

end Names

variable {T C : Type*}

/-- Simple tasks do not go through `onResume`. -/
def State.isSimple (s : State T C) (c : C) : Bool :=
  (s.coroutine c).any fun r => r.taskKind = .simple

/-- After a step on `t`, its current coroutine and its stack are those given; the other
threads keep theirs, and no coroutine stops being a simple task. -/
structure Calls (s s' : State T C) (t : T) (current : Option C) (frames : List (Frame C)) : Prop
    extends Stacks s s' t frames where
  current : (s'.thread t).currentCoroutine = current
  otherCurrents : ∀ u, u ≠ t →
    (s'.thread u).currentCoroutine = (s.thread u).currentCoroutine
  simple : ∀ c, s.isSimple c = true → s'.isSimple c = true

section Calls

variable {s s₁ s' : State T C} {t : T} {f : Frame C} {current current' : Option C}
  {frames rest : List (Frame C)}

theorem Calls.trans (h : Calls s s₁ t current frames) (h' : Calls s₁ s' t current' rest) :
    Calls s s' t current' rest :=
  ⟨h.toStacks.trans h'.toStacks, h'.current,
    fun u hu => (h'.otherCurrents u hu).trans (h.otherCurrents u hu),
    fun c hc => h'.simple c (h.simple c hc)⟩

theorem Calls.of_eq (hthread : s'.thread = s.thread) (hcoroutine : s'.coroutine = s.coroutine) :
    Calls s s' t (s.thread t).currentCoroutine (s.thread t).frames := by
  refine ⟨⟨?_, fun u _ => ?_⟩, ?_, fun u _ => ?_, fun c hc => ?_⟩
  · rw [hthread]
  · rw [hthread]
  · rw [hthread]
  · rw [hthread]
  · unfold State.isSimple at *
    rwa [hcoroutine]

variable [DecidableEq T]

theorem Calls.put (th : Thread C) : Calls s (s.put t th) t th.currentCoroutine th.frames := by
  refine ⟨.put th, ?_, fun u hu => ?_, fun c hc => hc⟩
  · exact congrArg Thread.currentCoroutine (Function.update_self ..)
  · exact congrArg Thread.currentCoroutine (Function.update_of_ne hu ..)

theorem Calls.enter {stage : Stage C} : Calls s (s.enter t f rest stage) t
    (s.thread t).currentCoroutine ({ f with stage := stage } :: rest) :=
  .put _

theorem Calls.leave : Calls s (s.leave t f rest) t
    (f.restores.getD (s.thread t).currentCoroutine) rest :=
  .put _

theorem Calls.setCurrentCoroutine {c : Option C} :
    Calls s (s.setCurrentCoroutine t c) t c (s.thread t).frames :=
  .put _

theorem Calls.setCurrentEnter {c : Option C} {stage : Stage C} :
    Calls s ((s.setCurrentCoroutine t c).enter t f rest stage) t c
      ({ f with stage := stage } :: rest) := by
  have henter : Calls s ((s.setCurrentCoroutine t c).enter t f rest stage) t _ _ :=
    Calls.setCurrentCoroutine.trans .enter
  rwa [thread_setCurrentCoroutine] at henter

theorem Calls.schedule {c : C} (hs : s.schedule t c = some s') :
    Calls s s' t (s.thread t).currentCoroutine (s.thread t).frames := by
  obtain ⟨r, -, rfl⟩ := Option.map_eq_some_iff.mp hs
  split
  · exact ⟨⟨rfl, fun _ _ => rfl⟩, rfl, fun _ _ => rfl, fun _ h => h⟩
  · split_ifs
    · exact ⟨⟨rfl, fun _ _ => rfl⟩, rfl, fun _ _ => rfl, fun _ h => h⟩
    · exact .put _

theorem Calls.scheduleAndLeave {c : C} (hs : s.scheduleAndLeave t f rest c = some s') :
    Calls s s' t (f.restores.getD (s.thread t).currentCoroutine) rest := by
  obtain ⟨s₁, h₁, rfl⟩ := Option.map_eq_some_iff.mp hs
  have hschedule := Calls.schedule h₁
  rw [← hschedule.current]
  exact hschedule.trans .leave

theorem Calls.dequeue {p : Pool} {victim : Option T} {c : C}
    (hs : s.dequeue t p victim = some (c, s')) :
    Calls s s' t (s.thread t).currentCoroutine (s.thread t).frames ∧
      s'.coroutine = s.coroutine := by
  have hstacks := Stacks.dequeue hs
  cases victim with
  | none =>
      unfold State.dequeue at hs
      dsimp only at hs
      split at hs
      · cases hs
      · cases hs
        exact ⟨⟨hstacks, rfl, fun _ _ => rfl, fun _ h => h⟩, rfl⟩
  | some u =>
      obtain ⟨-, hs⟩ := Option.ite_none_right_eq_some.mp hs
      split at hs
      · cases hs
      · next c' q hq =>
          cases hs
          have hcurrent : ∀ v, ((s.put u { s.thread u with localQueue := q }).thread
              v).currentCoroutine = (s.thread v).currentCoroutine := by
            intro v
            unfold State.put
            dsimp only
            by_cases hv : v = u
            · subst hv
              rw [Function.update_self]
            · rw [Function.update_of_ne hv]
          exact ⟨⟨hstacks, hcurrent t, fun v _ => hcurrent v, fun _ h => h⟩, rfl⟩

omit [DecidableEq T] in
theorem Calls.edit [DecidableEq C] (c : C) {g : Coroutine C → Coroutine C}
    (hg : ∀ r, (g r).taskKind = r.taskKind) :
    Calls s (s.edit c g) t (s.thread t).currentCoroutine (s.thread t).frames := by
  refine ⟨.edit c g, rfl, fun _ _ => rfl, fun c' hc' => ?_⟩
  unfold State.edit State.isSimple at *
  dsimp only
  by_cases hc : c' = c
  · subst hc
    rw [Function.update_self, Option.any_map]
    simpa only [Function.comp_def, hg] using hc'
  · rwa [Function.update_of_ne hc]

theorem Calls.editSetCurrentEnter [DecidableEq C] {c : C} {g : Coroutine C → Coroutine C}
    {c' : Option C} {stage : Stage C} (hg : ∀ r, (g r).taskKind = r.taskKind) :
    Calls s (((s.edit c g).setCurrentCoroutine t c').enter t f rest stage) t c'
      ({ f with stage := stage } :: rest) :=
  (Calls.edit c hg).trans .setCurrentEnter

theorem Calls.editEnter [DecidableEq C] {c : C} {g : Coroutine C → Coroutine C}
    {stage : Stage C} (hg : ∀ r, (g r).taskKind = r.taskKind) :
    Calls s ((s.edit c g).enter t f rest stage) t (s.thread t).currentCoroutine
      ({ f with stage := stage } :: rest) :=
  (Calls.edit c hg).trans .enter

/-- Of a resumed coroutine only a simple task is in its body at once. -/
theorem Calls.resume [DecidableEq C] {c : C} {restores : Option (Option C)}
    (hs : s.resume t c restores rest = some s') :
    ∃ stage, (stage.current = true → s.isSimple c = true) ∧
      Calls s s' t (s.thread t).currentCoroutine (⟨c, stage, restores⟩ :: rest) := by
  obtain ⟨stage, hstage, rfl⟩ := Option.map_eq_some_iff.mp hs
  obtain ⟨r, hr, hpoint⟩ := Option.bind_eq_some_iff.mp hstage
  have hedit : Calls s (s.edit c fun r => { r with awaiter := none }) t
      (s.thread t).currentCoroutine (s.thread t).frames := .edit c fun _ => rfl
  refine ⟨stage, fun hcurrent => ?_, hedit.trans (.put _)⟩
  unfold Coroutine.resumePoint at hpoint
  split at hpoint
  · cases hpoint
  · cases hpoint
  · split_ifs at hpoint with hsimple
    · unfold State.isSimple
      rw [hr]
      exact decide_eq_true hsimple
    · cases hpoint
      cases hcurrent

end Calls

/-- How a step takes the call on top of the stack of `t` on. -/
inductive Turn (s s' : State T C) (t : T) (f : Frame C) (rest : List (Frame C)) : Prop
  | leave : Calls s s' t (f.restores.getD (s.thread t).currentCoroutine) rest →
      Turn s s' t f rest
  | goOn (c : C) (stage : Stage C) (current : Option C) : f.stage.needsPool →
      stage.Names s'.isSimple current c → Calls s s' t current (⟨c, stage, f.restores⟩ :: rest) →
      Turn s s' t f rest

section Turns

variable [DecidableEq T] [DecidableEq C] {s s₁ s' : State T C} {t : T} {f : Frame C}
  {rest : List (Frame C)} {r : Coroutine C} {reads : Reads}

omit [DecidableEq T] [DecidableEq C] in
theorem Turn.names (h : Turn s s' t f rest)
    (hnames : Names s.isSimple (s.thread t).currentCoroutine (f :: rest)) :
    Names s'.isSimple (s'.thread t).currentCoroutine (s'.thread t).frames := by
  cases h with
  | leave hcalls =>
      rw [hcalls.current, hcalls.self]
      exact hnames.leave.mono hcalls.simple
  | goOn c stage current hpool hstage hcalls =>
      rw [hcalls.current, hcalls.self]
      exact (hnames.mono hcalls.simple).goOn hpool hstage

omit [DecidableEq T] [DecidableEq C] in
/-- A stage before `onResume` asks nothing of the current coroutine. -/
theorem Turn.quiet (stage : Stage C) {current : Option C} (hpool : f.stage.needsPool)
    (hquiet : stage.current = false)
    (hcalls : Calls s s' t current (⟨f.coroutine, stage, f.restores⟩ :: rest)) :
    Turn s s' t f rest := by
  refine .goOn f.coroutine stage current hpool (fun hcurrent => ?_) hcalls
  rw [hquiet] at hcurrent
  cases hcurrent

omit [DecidableEq T] [DecidableEq C] in
theorem Turn.stay (stage : Stage C) (hpool : f.stage.needsPool)
    (hnames : s.isSimple f.coroutine = true ∨ (s.thread t).currentCoroutine = some f.coroutine)
    (hcalls : Calls s s' t (s.thread t).currentCoroutine
      (⟨f.coroutine, stage, f.restores⟩ :: rest)) : Turn s s' t f rest :=
  .goOn f.coroutine stage _ hpool (fun _ => hnames.imp_left (hcalls.simple _)) hcalls

omit [DecidableEq T] [DecidableEq C] in
theorem needsPool_of_transfer {a : Awaiter C} {c c' : C} {advice : SuspensionAdvice}
    {found : Bool} (h : a.awaitSuspend c advice found = .transfer c') :
    (Stage.suspended a advice).needsPool :=
  (draws_of_transfer h).1

theorem turn_conclude {a : Awaiter C} {o : Outcome C}
    (hgo : (o = .self ∨ ∃ c, o = .transfer c) → f.stage.needsPool)
    (hs : s.conclude t f rest a o = some s') : Turn s s' t f rest := by
  cases o with
  | self =>
      cases hs
      exact .quiet (.resuming a) (hgo (.inl rfl)) rfl (.editEnter fun _ => rfl)
  | stay =>
      cases hs
      exact .leave .leave
  | schedule c => exact .leave (.scheduleAndLeave hs)
  | transfer c =>
      unfold State.conclude at hs
      dsimp only at hs
      split_ifs at hs
      · obtain ⟨stage, hsimple, hcalls⟩ := Calls.resume hs
        exact .goOn c stage _ (hgo (.inr ⟨c, rfl⟩))
          (fun h => .inl (hcalls.simple c (hsimple h))) hcalls
      · exact .leave (.scheduleAndLeave hs)

theorem turn_markTask {c : C} {advice : SuspensionAdvice} (hpool : f.stage.needsPool)
    (hs : s.markTask t f rest c advice = some s') : Turn s s' t f rest := by
  obtain ⟨r, -, hs⟩ := Option.bind_eq_some_iff.mp hs
  split_ifs at hs
  · cases hs
    exact .quiet (.marked c advice) hpool rfl (.editEnter fun _ => rfl)
  · exact turn_conclude (fun _ => hpool) hs

omit [DecidableEq T] in
theorem Turn.of_edit {c : C} {g : Coroutine C → Coroutine C}
    (h : Turn (s.edit c g) s' t f rest) (hg : ∀ r, (g r).taskKind = r.taskKind) :
    Turn s s' t f rest := by
  have hedit : Calls s (s.edit c g) t (s.thread t).currentCoroutine (s.thread t).frames :=
    .edit c hg
  cases h with
  | leave hcalls => exact .leave (hedit.trans hcalls)
  | goOn c' stage current hpool hstage hcalls =>
      exact .goOn c' stage current hpool hstage (hedit.trans hcalls)

/-- One member function of an awaiter. Only `onResume` makes its coroutine the current
one, and it stays so until the body has it. -/
theorem turn_run (hnames : f.stage.Names s.isSimple (s.thread t).currentCoroutine f.coroutine)
    (hs : s.run t f rest r reads = some s') : Turn s s' t f rest := by
  unfold State.run at hs
  cases hstage : f.stage with
  | ready a =>
      have hpool : f.stage.needsPool := by rw [hstage]; trivial
      simp only [hstage] at hs
      cases hs
      split_ifs
      · exact .quiet _ hpool rfl (.trans .setCurrentCoroutine (.put _))
      · exact .quiet _ hpool rfl .enter
  | advised a advice =>
      have hpool : f.stage.needsPool := by rw [hstage]; trivial
      simp only [hstage] at hs
      split_ifs at hs
      · split at hs
        · cases hs
          exact .leave .leave
        · exact .leave (.scheduleAndLeave hs)
        · cases hs
          exact .quiet (.resuming a) hpool rfl .enter
      · cases hs
        exact .quiet (.suspending a) hpool rfl .enter
  | suspending a =>
      have hpool : f.stage.needsPool := by rw [hstage]; trivial
      simp only [hstage] at hs
      obtain ⟨status, -, rfl⟩ := Option.map_eq_some_iff.mp hs
      split_ifs
      · exact .quiet (.suspended a _) hpool rfl
          (Calls.setCurrentCoroutine.trans (.editEnter fun _ => rfl))
      · exact .quiet (.suspended a _) hpool rfl (.editEnter fun _ => rfl)
  | suspended a advice =>
      simp only [hstage] at hs
      cases a with
      | task c =>
          have hpool : f.stage.needsPool := by rw [hstage]; trivial
          dsimp only at hs
          split_ifs at hs
          · exact turn_conclude (fun _ => hpool) hs
          · exact turn_markTask hpool hs
      | _ =>
          apply turn_conclude _ hs
          rw [hstage]
          rintro (hself | ⟨c, htransfer⟩)
          · exact needsPool_of_self hself
          · exact needsPool_of_transfer htransfer
  | marked c advice =>
      have hpool : f.stage.needsPool := by rw [hstage]; trivial
      simp only [hstage] at hs
      have hturn : Turn (s.edit c fun r => { r with continuation := some f.coroutine }) s' t f
          rest := turn_conclude (fun _ => hpool) hs
      exact hturn.of_edit fun _ => rfl
  | resuming a =>
      have hpool : f.stage.needsPool := by rw [hstage]; trivial
      simp only [hstage] at hs
      cases hs
      have hassert : Calls s { s with
          assertFailed := s.assertFailed || decide (r.threadPoolKind ≠ s.currentKind t) } t
          (s.thread t).currentCoroutine (s.thread t).frames := .of_eq rfl rfl
      refine .goOn f.coroutine .resumed (some f.coroutine) hpool (fun _ => .inr rfl) ?_
      split
      · exact hassert.trans (.editSetCurrentEnter fun _ => rfl)
      · exact hassert.trans .setCurrentEnter
  | resumed =>
      have hpool : f.stage.needsPool := by rw [hstage]; trivial
      simp only [hstage] at hs
      rw [hstage] at hnames
      split at hs
      · cases hs
        exact .stay (.body) hpool (hnames rfl) .enter
      · obtain ⟨status, -, rfl⟩ := Option.map_eq_some_iff.mp hs
        exact .stay (if r.status = pauseOnRunning then .paused else .body) hpool
          (hnames rfl) (.editEnter fun _ => rfl)
  | paused =>
      have hpool : f.stage.needsPool := by rw [hstage]; trivial
      simp only [hstage] at hs
      rw [hstage] at hnames
      split_ifs at hs
      cases hs
      exact .stay (.body) hpool (hnames rfl) .enter
  | body =>
      simp only [hstage] at hs
      cases hs

theorem turn_bodyStep {a : Action T C} (hstage : f.stage = .body)
    (hs : s.bodyStep t f rest r a = some s') : Turn s s' t f rest := by
  have hpool : f.stage.needsPool := by rw [hstage]; trivial
  cases a with
  | await u a =>
      obtain ⟨-, he⟩ := Option.ite_none_right_eq_some.mp hs
      cases he
      exact .quiet (.ready a) hpool rfl .enter
  | yield u =>
      obtain ⟨-, hs⟩ := Option.ite_none_right_eq_some.mp hs
      obtain ⟨status, -, rfl⟩ := Option.map_eq_some_iff.mp hs
      exact .quiet (.ready _) hpool rfl (.editEnter fun _ => rfl)
  | finish u =>
      unfold State.bodyStep at hs
      dsimp only at hs
      split at hs
      · cases hs
        exact .leave .leave
      · obtain ⟨status, -, rfl⟩ := Option.map_eq_some_iff.mp hs
        exact .quiet (.ready _) hpool rfl (.editEnter fun _ => rfl)
  | _ => cases hs

end Turns

section Steps

variable [DecidableEq T] [DecidableEq C] {s s' : State T C} {t : T}

theorem Calls.create {c : C} {taskKind : TaskKind} {requested : ThreadPoolKind} {reads : Reads}
    (hs : s.create t c taskKind requested reads = some s') :
    Calls s s' t (s.thread t).currentCoroutine (s.thread t).frames ∨
      ∃ stage : Stage C, ¬stage.needsPool ∧ Calls s s' t (s.thread t).currentCoroutine
        (⟨c, stage, none⟩ :: (s.thread t).frames) := by
  obtain ⟨hfresh, s₁, hs₁, hs'⟩ := create_cases hs
  have hcalls : Calls s s₁ t (s.thread t).currentCoroutine (s.thread t).frames := by
    subst hs₁
    refine ⟨⟨rfl, fun _ _ => rfl⟩, rfl, fun _ _ => rfl, fun c' hc' => ?_⟩
    unfold State.isSimple at *
    dsimp only
    rwa [Function.update_of_ne]
    rintro rfl
    rw [hfresh] at hc'
    cases hc'
  rcases hs' with rfl | ⟨stage, hstage, rfl⟩
  · exact .inl hcalls
  · exact .inr ⟨stage, hstage, hcalls.trans (.put _)⟩

/-- The call that a worker makes puts back what is current, unless it is the first. -/
theorem Calls.work {victim : Option T} (hs : s.work t victim = some s') :
    ∃ c stage, (stage.current = true → s'.isSimple c = true) ∧
      Calls s s' t (s.thread t).currentCoroutine
        (⟨c, stage, if (s.thread t).frames = [] then none else
          some (s.thread t).currentCoroutine⟩ :: (s.thread t).frames) := by
  obtain ⟨⟨c, s₁⟩, htake, hs⟩ := Option.bind_eq_some_iff.mp hs
  obtain ⟨p, -, htake⟩ := Option.bind_eq_some_iff.mp htake
  obtain ⟨hcalls, -⟩ := Calls.dequeue htake
  obtain ⟨stage, hsimple, hresume⟩ := Calls.resume hs
  rw [hcalls.current] at hresume
  exact ⟨c, stage, fun h => hresume.simple c (hsimple h), hcalls.trans hresume⟩

theorem Calls.cancelTaskAwaiter {c : C} (hs : act s (.cancelTaskAwaiter t c) = some s') :
    Calls s s' t (s.thread t).currentCoroutine (s.thread t).frames := by
  obtain ⟨continuation, -, hs⟩ := Option.bind_eq_some_iff.mp hs
  have hedit : Calls s (s.edit c fun r => { r with continuation := none }) t
      (s.thread t).currentCoroutine (s.thread t).frames := .edit c fun _ => rfl
  exact hedit.trans (.schedule hs)

theorem Calls.setStatus {c : C} {status : CoroutineStatus} {isFinalAwaiter : Bool}
    (hs : act s (.setStatus c status isFinalAwaiter) = some s') :
    Calls s s' t (s.thread t).currentCoroutine (s.thread t).frames := by
  obtain ⟨r, -, hs⟩ := Option.bind_eq_some_iff.mp hs
  obtain ⟨status, -, rfl⟩ := Option.map_eq_some_iff.mp hs
  exact .edit c fun _ => rfl

theorem turn_body {a : Action T C} (hs : s.body t a = some s') :
    ∃ f rest, (s.thread t).frames = f :: rest ∧ Turn s s' t f rest := by
  obtain ⟨⟨f, rest, r⟩, htop, hs⟩ := Option.bind_eq_some_iff.mp hs
  obtain ⟨hstage, hs⟩ := Option.ite_none_right_eq_some.mp hs
  exact ⟨f, rest, (top_eq htop).1, turn_bodyStep hstage hs⟩

def Action.thread : Action T C → Option T
  | .create t .. | .await t _ | .yield t | .finish t | .run t _ | .work t _ | .schedule t _ |
      .cancelTaskAwaiter t _ => some t
  | .setStatus .. => none

/-- What a step does to the stack of a thread: nothing, a turn of the call on top, or a
new call, of a creation or of a worker. -/
inductive Changes (s s' : State T C) (t : T) : Prop
  | same : Calls s s' t (s.thread t).currentCoroutine (s.thread t).frames → Changes s s' t
  | turn {f : Frame C} {rest : List (Frame C)} : (s.thread t).frames = f :: rest →
      Turn s s' t f rest → Changes s s' t
  | create (c : C) (stage : Stage C) : ¬stage.needsPool →
      Calls s s' t (s.thread t).currentCoroutine (⟨c, stage, none⟩ :: (s.thread t).frames) →
      Changes s s' t
  | work (c : C) (stage : Stage C) : (stage.current = true → s'.isSimple c = true) →
      Calls s s' t (s.thread t).currentCoroutine
        (⟨c, stage, if (s.thread t).frames = [] then none else
          some (s.thread t).currentCoroutine⟩ :: (s.thread t).frames) →
      Changes s s' t

omit [DecidableEq T] [DecidableEq C] in
theorem Changes.calls (h : Changes s s' t) : ∃ current frames, Calls s s' t current frames := by
  cases h with
  | same hcalls => exact ⟨_, _, hcalls⟩
  | turn _ hturn =>
      cases hturn with
      | leave hcalls => exact ⟨_, _, hcalls⟩
      | goOn _ _ _ _ _ hcalls => exact ⟨_, _, hcalls⟩
  | create _ _ _ hcalls => exact ⟨_, _, hcalls⟩
  | work _ _ _ hcalls => exact ⟨_, _, hcalls⟩

def State.Named (s : State T C) : Prop :=
  ∀ t, Names s.isSimple (s.thread t).currentCoroutine (s.thread t).frames

theorem changes_act {a : Action T C} (h : s.Named) (hs : act s a = some s')
    (ha : ∀ u, a.thread = some u → u = t) : Changes s s' t := by
  cases a with
  | create u c taskKind requested reads =>
      obtain rfl := ha u rfl
      obtain ⟨-, hs⟩ := Option.ite_none_right_eq_some.mp hs
      rcases Calls.create hs with hcalls | ⟨stage, hstage, hcalls⟩
      · exact .same hcalls
      · exact .create c stage hstage hcalls
  | await u a =>
      obtain rfl := ha u rfl
      obtain ⟨f, rest, hframes, hturn⟩ := turn_body hs
      exact .turn hframes hturn
  | yield u =>
      obtain rfl := ha u rfl
      obtain ⟨f, rest, hframes, hturn⟩ := turn_body hs
      exact .turn hframes hturn
  | finish u =>
      obtain rfl := ha u rfl
      obtain ⟨f, rest, hframes, hturn⟩ := turn_body hs
      exact .turn hframes hturn
  | run u reads =>
      obtain rfl := ha u rfl
      obtain ⟨⟨f, rest, r⟩, htop, hs⟩ := Option.bind_eq_some_iff.mp hs
      have hnames := h u
      rw [(top_eq htop).1] at hnames
      exact .turn (top_eq htop).1 (turn_run hnames.1 hs)
  | work u victim =>
      obtain rfl := ha u rfl
      obtain ⟨c, stage, hsimple, hcalls⟩ := Calls.work hs
      exact .work c stage hsimple hcalls
  | schedule u c =>
      obtain rfl := ha u rfl
      exact .same (.schedule hs)
  | cancelTaskAwaiter u c =>
      obtain rfl := ha u rfl
      exact .same (.cancelTaskAwaiter hs)
  | setStatus c status isFinalAwaiter => exact .same (.setStatus hs)

omit [DecidableEq T] [DecidableEq C] in
theorem Changes.named (h : Changes s s' t) (hnamed : s.Named) : s'.Named := by
  obtain ⟨current, frames, hcalls⟩ := h.calls
  intro u
  by_cases hu : u = t
  · subst hu
    have hnames := hnamed u
    cases h with
    | same hcalls =>
        rw [hcalls.current, hcalls.self]
        exact hnames.mono hcalls.simple
    | turn hframes hturn =>
        rw [hframes] at hnames
        exact hturn.names hnames
    | create c stage hstage hcalls =>
        rw [hcalls.current, hcalls.self]
        refine ⟨fun hcurrent => ?_, fun hpool => absurd hpool hstage, hnames.mono hcalls.simple⟩
        cases stage with
        | resumed | paused | body => exact absurd trivial hstage
        | _ => cases hcurrent
    | work c stage hsimple hcalls =>
        rw [hcalls.current, hcalls.self]
        refine ⟨fun hcurrent => .inl (hsimple hcurrent), ?_⟩
        have hnames := hnames.mono hcalls.simple
        dsimp only
        split_ifs with hframes
        · rw [hframes] at hnames ⊢
          exact ⟨fun _ => rfl, hnames⟩
        · exact hnames
  · rw [hcalls.others u hu, hcalls.otherCurrents u hu]
    exact (hnamed u).mono hcalls.simple

theorem State.Named.act {a : Action T C} (h : s.Named) (hs : act s a = some s') : s'.Named := by
  intro t
  cases ha : a.thread with
  | none =>
      have hchanges : Changes s s' t := changes_act h hs fun u hu => by
        rw [ha] at hu
        cases hu
      exact hchanges.named h t
  | some u =>
      have hchanges : Changes s s' u :=
        changes_act h hs fun v hv => Option.some.inj (hv.symm.trans ha)
      exact hchanges.named h t

theorem named_of_reach (hs : (system T C).Reach s) : s.Named := by
  refine hs.invariant (fun s hstart t => ?_) fun s a s' h ha => ?_
  · rw [(hstart.2.2.1 t).2.2]
    trivial
  · obtain ⟨-, ha⟩ := Option.ite_none_left_eq_some.mp ha
    exact h.act ha

/-- While the body of a coroutine other than a simple task runs, it is the current one of
its thread, whatever `ThreadPool::yield` has run on top of it, and a coroutine that it
creates for `ThreadPoolKind::Current` gets its kind, which is that of the thread. -/
theorem body_is_current {f : Frame C} {rest : List (Frame C)} (hs : (system T C).Reach s)
    (hframes : (s.thread t).frames = f :: rest) (hbody : f.stage = .body)
    (hsimple : s.isSimple f.coroutine = false) :
    (s.thread t).currentCoroutine = some f.coroutine ∧
      s.kind f.coroutine = some (s.currentKind t) ∧
      ∀ taskKind, (s.construct t taskKind .current).threadPoolKind = s.currentKind t := by
  have hnames := named_of_reach hs t
  rw [hframes] at hnames
  have hcurrent : (s.thread t).currentCoroutine = some f.coroutine := by
    rcases hnames.1 (by rw [hbody]; rfl) with h | h
    · rw [hsimple] at h
      cases h
    · exact h
  have hkind : s.kind f.coroutine = some (s.currentKind t) := by
    obtain ⟨p, hp, hk⟩ := ((inv_of_reach hs).threads t).frames f
      (by rw [hframes]; exact List.mem_cons_self) (by rw [hbody]; trivial)
    rw [hk]
    unfold State.currentKind
    rw [hp]
    rfl
  refine ⟨hcurrent, hkind, fun taskKind => ?_⟩
  unfold State.construct
  dsimp only
  rw [hcurrent, Option.bind_some, hkind]
  rfl

end Steps

def spins (n : ℕ) : List (Action (Fin 3) Bool) :=
  [.create 0 false .async .background calm, .run 0 calm, .create 0 true .async .background calm,
    .run 0 calm, .work 1 none, .run 1 calm, .run 1 calm, .work 1 none, .run 1 calm, .run 1 calm,
    .finish 1] ++ List.replicate n (.run 1 calm)

theorem body_is_current_after_yield :
    ∃ s : State (Fin 3) Bool, (system (Fin 3) Bool).Reach s ∧
      (s.thread 1).frames = [⟨false, .body, none⟩] ∧
      (s.thread 1).currentCoroutine = some false ∧ s.kind false = some (s.currentKind 1) ∧
      ∀ taskKind, (s.construct 1 taskKind .current).threadPoolKind = s.currentKind 1 := by
  obtain ⟨s, hs, hframes, hsimple⟩ := StepSystem.Reach.exists_of_exec (M := system (Fin 3) Bool)
    (P := fun s => (s.thread 1).frames = [⟨false, .body, none⟩] ∧ s.isSimple false = false)
    (s := threeThreads) (.start start_threeChains.1) (spins 4) (by decide)
  exact ⟨s, hs, hframes, body_is_current hs hframes rfl hsimple⟩

end LevelzAsync.PoolAffinity
