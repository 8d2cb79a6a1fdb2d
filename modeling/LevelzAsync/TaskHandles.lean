import LevelzAsync.StepSystem
import Mathlib.Logic.Function.Basic

/-!
# Handles of a task and their reference count

The special member functions of `BaseTask`, each as one operation on the variables that
hold handles. What they call on a coroutine outside the class, `setOwner` and the part of
`destroyOrAbandon` behind the last `unRef`, is kept in a log. A run ends when a null
handle is dereferenced or an assertion fails.
-/

namespace LevelzAsync.TaskHandles

inductive Fault
  | nullHandle
  | assertion
  deriving DecidableEq

inductive Call (C : Type*)
  | setOwner (c : C)
  | abandon (c : C)
  deriving DecidableEq

structure State (V C : Type*) where
  /-- `m_handle` of the variables that live. -/
  handle : V → Option (Option C)
  refCount : C → ℕ
  /-- The coroutines that were handed to the constructor of a first handle. -/
  created : C → Bool
  calls : List (Call C)

inductive Op (V C : Type*)
  | construct (v : V)
  | create (v : V) (c : C)
  | copyConstruct (v other : V)
  | moveConstruct (v other : V)
  | copyAssign (v other : V)
  | moveAssign (v other : V)
  | destroy (v : V)

section Machine

variable {V C : Type*}

/-- `m_handle` of a variable. -/
def State.handleOf (s : State V C) (v : V) : Option C := (s.handle v).getD none

def State.call (s : State V C) (call : Call C) : State V C := { s with calls := s.calls ++ [call] }

variable [DecidableEq V]

def State.setHandle (s : State V C) (v : V) (h : Option (Option C)) : State V C :=
  { s with handle := Function.update s.handle v h }

variable [DecidableEq C]

def State.setRefCount (s : State V C) (c : C) (count : ℕ) : State V C :=
  { s with refCount := Function.update s.refCount c count }

/-- `if (coroutine().shouldCancelAbandoned()) coroutine().setOwner();` -/
def State.own (s : State V C) (shouldCancelAbandoned : C → Bool) (c : C) : State V C :=
  if shouldCancelAbandoned c = true then s.call (.setOwner c) else s

variable (shouldCancelAbandoned : C → Bool)

/-- `BaseTask(std::coroutine_handle<promise_type> handle)`. -/
def create (s : State V C) (v : V) (c : C) : Except Fault (State V C) :=
  if s.refCount c = 0 then
    .ok ((({ s with created := Function.update s.created c true }.setHandle v (some (some c))
      ).setRefCount c (s.refCount c + 1)).own shouldCancelAbandoned c)
  else .error .assertion

/-- The handle is copied to `v`: `m_handle = other.m_handle` and the `ref()` of its promise. -/
def copyHandle (s : State V C) (v : V) : Option C → Except Fault (State V C)
  | none => .error .nullHandle
  | some c =>
      if 0 < s.refCount c then
        .ok (((s.setHandle v (some (some c))).setRefCount c (s.refCount c + 1)).own
          shouldCancelAbandoned c)
      else .error .assertion

/-- The handle of `other` is moved to `v`, and `coroutine()` is used. -/
def moveHandle (s : State V C) (v other : V) : Option C → Except Fault (State V C)
  | none => .error .nullHandle
  | some c =>
      .ok (((s.setHandle v (some (some c))).setHandle other (some none)).own
        shouldCancelAbandoned c)

def destroyOrAbandon (s : State V C) : Option C → Except Fault (State V C)
  | none => .ok s
  | some c =>
      if 0 < s.refCount c then
        let prevRefCount := s.refCount c
        let s := (s.own shouldCancelAbandoned c).setRefCount c (prevRefCount - 1)
        if prevRefCount = 1 then .ok (s.call (.abandon c)) else .ok s
      else .error .assertion

/-- The variables that an operation makes do not live yet, those that it uses do; only a
handle that is not empty is copied. -/
def Legal (s : State V C) : Op V C → Prop
  | .construct v => s.handle v = none
  | .create v c => s.handle v = none ∧ s.created c = false
  | .copyConstruct v other => s.handle v = none ∧ (s.handleOf other).isSome = true
  | .moveConstruct v other => s.handle v = none ∧ (s.handle other).isSome = true
  | .copyAssign v other | .moveAssign v other =>
      (s.handle v).isSome = true ∧ (s.handle other).isSome = true
  | .destroy v => (s.handle v).isSome = true

instance (s : State V C) (op : Op V C) : Decidable (Legal s op) :=
  match op with
  | .construct v => inferInstanceAs (Decidable (s.handle v = none))
  | .create v c => inferInstanceAs (Decidable (s.handle v = none ∧ s.created c = false))
  | .copyConstruct v other =>
      inferInstanceAs (Decidable (s.handle v = none ∧ (s.handleOf other).isSome = true))
  | .moveConstruct v other =>
      inferInstanceAs (Decidable (s.handle v = none ∧ (s.handle other).isSome = true))
  | .copyAssign v other | .moveAssign v other =>
      inferInstanceAs (Decidable ((s.handle v).isSome = true ∧ (s.handle other).isSome = true))
  | .destroy v => inferInstanceAs (Decidable ((s.handle v).isSome = true))

def run (s : State V C) : Op V C → Except Fault (State V C)
  | .construct v => .ok (s.setHandle v (some none))
  | .create v c => create shouldCancelAbandoned s v c
  | .copyConstruct v other => copyHandle shouldCancelAbandoned s v (s.handleOf other)
  | .moveConstruct v other => moveHandle shouldCancelAbandoned s v other (s.handleOf other)
  | .copyAssign v other =>
      if other = v then .ok s
      else (destroyOrAbandon shouldCancelAbandoned s (s.handleOf v)).bind fun s =>
        copyHandle shouldCancelAbandoned s v (s.handleOf other)
  | .moveAssign v other =>
      if other = v then .ok s
      else (destroyOrAbandon shouldCancelAbandoned s (s.handleOf v)).bind fun s =>
        moveHandle shouldCancelAbandoned s v other (s.handleOf other)
  | .destroy v =>
      (destroyOrAbandon shouldCancelAbandoned s (s.handleOf v)).map fun s => s.setHandle v none

def initial : State V C := ⟨fun _ => none, fun _ => 0, fun _ => false, []⟩

/-- Nothing follows a fault. -/
def system : StepSystem (Except Fault (State V C)) (Op V C) where
  start r := r = .ok initial
  step r op :=
    match r with
    | .ok s => if Legal s op then some (run shouldCancelAbandoned s op) else none
    | .error _ => none

/-- The operation takes over the handle of another variable, which is null. -/
def fromEmpty (s : State V C) : Op V C → Prop
  | .moveConstruct _ other => s.handleOf other = none
  | .copyAssign v other | .moveAssign v other => other ≠ v ∧ s.handleOf other = none
  | _ => False

def State.abandons (s : State V C) (c : C) : ℕ := s.calls.count (.abandon c)

variable [Fintype V]

def State.holders (s : State V C) (c : C) : ℕ :=
  ∑ v, (decide (s.handle v = some (some c))).toNat

/-- The reference counts are right, and a coroutine was abandoned once if its last handle
was dropped, and else not at all. -/
def Counted (s : State V C) : Prop :=
  ∀ c, s.refCount c = s.holders c ∧
    s.abandons c = if s.created c = true ∧ s.holders c = 0 then 1 else 0

end Machine

section Own

variable {V C : Type*} {s : State V C} {f : C → Bool} {c d : C}

@[simp] theorem own_handle : (s.own f c).handle = s.handle := by
  unfold State.own
  split <;> rfl

@[simp] theorem own_refCount : (s.own f c).refCount = s.refCount := by
  unfold State.own
  split <;> rfl

@[simp] theorem own_created : (s.own f c).created = s.created := by
  unfold State.own
  split <;> rfl

variable [DecidableEq C]

@[simp] theorem call_setOwner_abandons : (s.call (.setOwner c)).abandons d = s.abandons d := by
  simp [State.abandons, State.call]

@[simp] theorem call_abandon_abandons :
    (s.call (.abandon c)).abandons d = s.abandons d + if d = c then 1 else 0 := by
  by_cases hd : c = d
  · simp [State.abandons, State.call, hd]
  · simp [State.abandons, State.call, hd, Ne.symm hd]

theorem setRefCount_refCount {count : ℕ} :
    (s.setRefCount c count).refCount d = if d = c then count else s.refCount d :=
  Function.update_apply ..

@[simp] theorem own_abandons : (s.own f c).abandons d = s.abandons d := by
  unfold State.own
  split
  · exact call_setOwner_abandons
  · rfl

end Own

section Counts

variable {V C : Type*} [Fintype V] [DecidableEq C] {s s' : State V C} {f : C → Bool}
  {v other : V} {c : C} {h : Option C}

/-- The share of a variable in the number of holders. -/
def share (c : C) (h : Option (Option C)) : ℕ := (decide (h = some (some c))).toNat

omit [Fintype V] in
theorem share_handle (s : State V C) (v : V) (c : C) :
    share c (s.handle v) = if s.handleOf v = some c then 1 else 0 := by
  unfold share State.handleOf
  cases s.handle v with
  | none => rfl
  | some h => by_cases hc : h = some c <;> simp [hc]

theorem share_some (c d : C) : share d (some (some c)) = if d = c then 1 else 0 := by
  unfold share
  by_cases hd : c = d
  · simp [hd]
  · simp [hd, Ne.symm hd]

theorem share_null (c : C) : share c (some none) = 0 := rfl

theorem share_none (c : C) : share c none = 0 := rfl

theorem holders_congr (hhandle : s'.handle = s.handle) (c : C) : s'.holders c = s.holders c := by
  unfold State.holders
  rw [hhandle]

theorem one_le_holders (hv : s.handleOf v = some c) : 1 ≤ s.holders c := by
  have hle := le_sum_tally s.handle (share c) v
  rwa [share_handle, if_pos hv] at hle

/-- The counts in the middle of an operation: the reference of the handle `h`, which is
still in its variable, is given back already. -/
structure CountedBut (h : Option C) (s : State V C) : Prop where
  refCount : ∀ c, s.refCount c + (if h = some c then 1 else 0) = s.holders c
  abandons : ∀ c, s.abandons c = if s.created c = true ∧ s.refCount c = 0 then 1 else 0
  created : ∀ c, s.created c = false → s.holders c = 0

theorem CountedBut.counted (hs : CountedBut none s) : Counted s := by
  intro c
  have hrc : s.refCount c = s.holders c := hs.refCount c
  exact ⟨hrc, hrc ▸ hs.abandons c⟩

theorem CountedBut.created_of_holders (hs : CountedBut h s) (hone : 1 ≤ s.holders c) :
    s.created c = true := by
  by_contra hn
  have := hs.created c (by simpa using hn)
  omega

theorem CountedBut.giveBack (hs : CountedBut none s) (hone : 1 ≤ s.holders c)
    (hhandle : s'.handle = s.handle) (hcreated : s'.created = s.created)
    (hcount : ∀ d, s'.refCount d = if d = c then s.refCount c - 1 else s.refCount d)
    (habandons : ∀ d, s'.abandons d =
      s.abandons d + if d = c ∧ s.refCount c = 1 then 1 else 0) : CountedBut (some c) s' := by
  have hrc : s.refCount c = s.holders c := hs.refCount c
  refine ⟨fun d => ?_, fun d => ?_, fun d => ?_⟩
  · rw [holders_congr hhandle, hcount, ← hs.refCount d]
    by_cases hd : d = c
    · subst hd
      simp
      omega
    · simp [hd, Ne.symm hd]
  · rw [habandons, hcreated, hcount, hs.abandons d]
    by_cases hd : d = c
    · subst hd
      have hmade := hs.created_of_holders hone
      by_cases hlast : s.refCount d = 1
      · simp [hmade, hlast]
      · have hpos : s.refCount d ≠ 0 := by omega
        have hmore : s.refCount d - 1 ≠ 0 := by omega
        simp [hlast, hpos, hmore]
    · simp [hd]
  · rw [hcreated, holders_congr hhandle]
    exact hs.created d

variable [DecidableEq V]

theorem holders_setHandle (s : State V C) (v : V) (h : Option (Option C)) (c : C) :
    (s.setHandle v h).holders c + share c (s.handle v) = s.holders c + share c h :=
  sum_update_tally s.handle (share c) v h

theorem holders_take (hv : s.handleOf v = h) (c d : C) :
    (s.setHandle v (some (some c))).holders d + (if h = some d then 1 else 0) =
      s.holders d + if d = c then 1 else 0 := by
  have hholders := holders_setHandle s v (some (some c)) d
  rwa [share_handle, share_some, hv] at hholders

theorem two_le_holders (hv : s.handleOf v = some c) (hother : s.handleOf other = some c)
    (hne : v ≠ other) : 2 ≤ s.holders c := by
  have hle := add_le_sum_tally s.handle (share c) hne
  rwa [share_handle, share_handle, if_pos hv, if_pos hother] at hle

omit [DecidableEq V] in
theorem CountedBut.destroyOrAbandon (hs : CountedBut none s) (hv : s.handleOf v = h) :
    ∃ s', destroyOrAbandon f s h = .ok s' ∧ CountedBut h s' ∧ s'.handle = s.handle := by
  cases h with
  | none => exact ⟨s, rfl, hs, rfl⟩
  | some c =>
      have hrc : s.refCount c = s.holders c := hs.refCount c
      have hone : 1 ≤ s.holders c := one_le_holders hv
      have hpos : 0 < s.refCount c := by omega
      have hcount : ∀ d, ((s.own f c).setRefCount c (s.refCount c - 1)).refCount d =
          if d = c then s.refCount c - 1 else s.refCount d := fun d => by
        rw [setRefCount_refCount, own_refCount]
      have habandons : ∀ d, ((s.own f c).setRefCount c (s.refCount c - 1)).abandons d =
          s.abandons d := fun d => own_abandons
      by_cases hlast : s.refCount c = 1
      · refine ⟨((s.own f c).setRefCount c (s.refCount c - 1)).call (.abandon c), ?_, ?_,
          own_handle⟩
        · simp only [TaskHandles.destroyOrAbandon, if_pos hpos, if_pos hlast]
        · refine hs.giveBack hone own_handle own_created hcount fun d => ?_
          rw [call_abandon_abandons, habandons]
          simp [hlast]
      · refine ⟨(s.own f c).setRefCount c (s.refCount c - 1), ?_, ?_, own_handle⟩
        · simp only [TaskHandles.destroyOrAbandon, if_pos hpos, if_neg hlast]
        · refine hs.giveBack hone own_handle own_created hcount fun d => ?_
          rw [habandons]
          simp [hlast]

theorem CountedBut.copyHandle (hs : CountedBut h s) (hv : s.handleOf v = h)
    (hother : s.handleOf other = some c) (hne : v ≠ other) :
    ∃ s', copyHandle f s v (some c) = .ok s' ∧ CountedBut none s' := by
  have hone := one_le_holders hother
  have hpos : 0 < s.refCount c := by
    have hrc := hs.refCount c
    by_cases hc : h = some c
    · have htwo := two_le_holders (hv.trans hc) hother hne
      rw [if_pos hc] at hrc
      omega
    · rw [if_neg hc] at hrc
      omega
  refine ⟨_, if_pos hpos, fun d => ?_, fun d => ?_, fun d => ?_⟩
  · have hd := holders_take hv c d
    have hrc := hs.refCount d
    rw [own_refCount, setRefCount_refCount, holders_congr own_handle]
    change (if d = c then s.refCount c + 1 else s.refCount d) + _ =
      (s.setHandle v (some (some c))).holders d
    by_cases hc : d = c
    · subst hc
      simp at hd hrc ⊢
      omega
    · simp [hc] at hd hrc ⊢
      omega
  · rw [own_abandons, own_created, own_refCount, setRefCount_refCount]
    change s.abandons d = if s.created d = true ∧ (if d = c then s.refCount c + 1
      else s.refCount d) = 0 then 1 else 0
    rw [hs.abandons d]
    by_cases hc : d = c
    · subst hc
      simp [hpos.ne']
    · simp [hc]
  · intro hcreated
    rw [own_created] at hcreated
    have hd := holders_take hv c d
    have hzero := hs.created d hcreated
    have hdc : d ≠ c := by
      rintro rfl
      omega
    rw [if_neg hdc] at hd
    rw [holders_congr own_handle]
    change (s.setHandle v (some (some c))).holders d = 0
    omega

/-- The variable `v`, whose old handle gave its reference back, takes `c` from `other`. -/
theorem CountedBut.moveHandle (hs : CountedBut h s) (hv : s.handleOf v = h)
    (hother : s.handleOf other = some c) (hne : v ≠ other) :
    ∃ s', moveHandle f s v other (some c) = .ok s' ∧ CountedBut none s' := by
  refine ⟨_, rfl, ?_⟩
  have hholders : ∀ d, ((s.setHandle v (some (some c))).setHandle other (some none)).holders d +
      (if h = some d then 1 else 0) = s.holders d := by
    intro d
    have hfirst := holders_take hv c d
    have hsecond := holders_setHandle (s.setHandle v (some (some c))) other (some none) d
    have hkept : (s.setHandle v (some (some c))).handleOf other = some c := by
      have hhandle : (s.setHandle v (some (some c))).handle other = s.handle other :=
        Function.update_of_ne hne.symm ..
      unfold State.handleOf
      rw [hhandle]
      exact hother
    rw [share_handle, share_null, hkept] at hsecond
    by_cases hc : d = c
    · subst hc
      simp at hfirst hsecond
      omega
    · simp [hc, Ne.symm hc] at hfirst hsecond
      omega
  refine ⟨fun d => ?_, fun d => ?_, fun d => ?_⟩
  · have hd := hholders d
    have hrc := hs.refCount d
    rw [own_refCount, holders_congr own_handle]
    change s.refCount d + 0 = _
    omega
  · rw [own_abandons, own_created, own_refCount]
    exact hs.abandons d
  · intro hcreated
    rw [own_created] at hcreated
    have hd := hholders d
    have hzero := hs.created d hcreated
    rw [holders_congr own_handle]
    omega

theorem CountedBut.create (hs : CountedBut none s) (hv : s.handleOf v = none)
    (hnew : s.created c = false) : ∃ s', create f s v c = .ok s' ∧ CountedBut none s' := by
  have hzero := hs.created c hnew
  have hrc : s.refCount c = 0 := (hs.refCount c).trans hzero
  refine ⟨_, if_pos hrc, fun d => ?_, fun d => ?_, fun d => ?_⟩
  · have hd := holders_take hv c d
    have hcount := hs.refCount d
    rw [own_refCount, setRefCount_refCount, holders_congr own_handle]
    change (if d = c then s.refCount c + 1 else s.refCount d) + 0 =
      (s.setHandle v (some (some c))).holders d
    by_cases hc : d = c
    · subst hc
      simp at hd hcount ⊢
      omega
    · simp [hc] at hd hcount ⊢
      omega
  · rw [own_abandons, own_created, own_refCount, setRefCount_refCount]
    change s.abandons d = if Function.update s.created c true d = true ∧
      (if d = c then s.refCount c + 1 else s.refCount d) = 0 then 1 else 0
    rw [hs.abandons d]
    by_cases hc : d = c
    · subst hc
      simp [hnew]
    · simp [hc]
  · intro hcreated
    rw [own_created] at hcreated
    change Function.update s.created c true d = false at hcreated
    have hdc : d ≠ c := by
      rintro rfl
      rw [Function.update_self] at hcreated
      cases hcreated
    rw [Function.update_of_ne hdc] at hcreated
    have hd := holders_take hv c d
    rw [if_neg hdc, hs.created d hcreated] at hd
    rw [holders_congr own_handle]
    change (s.setHandle v (some (some c))).holders d = 0
    omega

theorem CountedBut.clear (hs : CountedBut h s) (hv : s.handleOf v = h) {x : Option (Option C)}
    (hx : ∀ c, share c x = 0) : CountedBut none (s.setHandle v x) := by
  have hholders : ∀ d, (s.setHandle v x).holders d + (if h = some d then 1 else 0) =
      s.holders d := fun d => by
    have hd := holders_setHandle s v x d
    rwa [share_handle, hx, hv] at hd
  refine ⟨fun d => ?_, hs.abandons, fun d hcreated => ?_⟩
  · have hd := hholders d
    have hrc := hs.refCount d
    change s.refCount d + 0 = _
    omega
  · have hd := hholders d
    have hzero := hs.created d hcreated
    omega

end Counts

section Runs

variable {V C : Type*} [Fintype V] [DecidableEq V] [DecidableEq C] {s : State V C} {f : C → Bool}
  {op : Op V C}

omit [Fintype V] [DecidableEq V] [DecidableEq C] in
theorem handleOf_congr {s s' : State V C} (h : s'.handle = s.handle) (v : V) :
    s'.handleOf v = s.handleOf v := by
  unfold State.handleOf
  rw [h]

omit [Fintype V] [DecidableEq V] [DecidableEq C] in
theorem handleOf_none {v : V} (hv : s.handle v = none) : s.handleOf v = none := by
  unfold State.handleOf
  rw [hv]
  rfl

omit [DecidableEq V] in
/-- Both assignments drop the old handle first; `take` is what they do with the other one. -/
theorem CountedBut.assign {v other : V} (take : State V C → V → Option C → Except Fault (State V C))
    (hs : CountedBut none s) (hnull : ∀ s, ∃ fault, take s v none = .error fault)
    (htake : ∀ {s h c}, CountedBut h s → s.handleOf v = h → s.handleOf other = some c →
      ∃ s', take s v (some c) = .ok s' ∧ CountedBut none s') :
    (s.handleOf other = none →
      ∃ fault, ((TaskHandles.destroyOrAbandon f s (s.handleOf v)).bind fun s =>
        take s v (s.handleOf other)) = .error fault) ∧
    (s.handleOf other ≠ none →
      ∃ s', ((TaskHandles.destroyOrAbandon f s (s.handleOf v)).bind fun s =>
        take s v (s.handleOf other)) = .ok s' ∧ CountedBut none s') := by
  obtain ⟨s₁, hdrop, hs₁, hhandle⟩ := hs.destroyOrAbandon (f := f) (v := v) rfl
  rw [hdrop]
  change (_ → ∃ fault, take s₁ v (s₁.handleOf other) = .error fault) ∧
    (_ → ∃ s', take s₁ v (s₁.handleOf other) = .ok s' ∧ CountedBut none s')
  rw [handleOf_congr hhandle other]
  cases hother : s.handleOf other with
  | none => exact ⟨fun _ => hnull s₁, fun h => absurd rfl h⟩
  | some c =>
      refine ⟨nofun, fun _ => ?_⟩
      exact htake hs₁ (handleOf_congr hhandle v) ((handleOf_congr hhandle other).trans hother)

/-- An operation faults when it takes over a null handle, and else keeps the counts. -/
theorem CountedBut.run (hs : CountedBut none s) (hlegal : Legal s op) :
    (fromEmpty s op → ∃ fault, run f s op = .error fault) ∧
      (¬ fromEmpty s op → ∃ s', run f s op = .ok s' ∧ CountedBut none s') := by
  cases op with
  | construct v =>
      refine ⟨nofun, fun _ => ⟨_, rfl, ?_⟩⟩
      exact hs.clear (handleOf_none hlegal) share_null
  | create v c => exact ⟨nofun, fun _ => hs.create (handleOf_none hlegal.1) hlegal.2⟩
  | copyConstruct v other =>
      obtain ⟨hv, hother⟩ := hlegal
      obtain ⟨c, hc⟩ := Option.isSome_iff_exists.mp hother
      refine ⟨nofun, fun _ => ?_⟩
      have hne : v ≠ other := by
        rintro rfl
        rw [handleOf_none hv] at hc
        cases hc
      unfold TaskHandles.run
      dsimp only
      rw [hc]
      exact hs.copyHandle (handleOf_none hv) hc hne
  | moveConstruct v other =>
      obtain ⟨hv, hother⟩ := hlegal
      have hne : v ≠ other := by
        rintro rfl
        rw [hv] at hother
        cases hother
      unfold TaskHandles.run fromEmpty
      dsimp only
      cases hc : s.handleOf other with
      | none => exact ⟨fun _ => ⟨_, rfl⟩, fun h => absurd rfl h⟩
      | some c => exact ⟨nofun, fun _ => hs.moveHandle (handleOf_none hv) hc hne⟩
  | copyAssign v other =>
      unfold TaskHandles.run fromEmpty
      by_cases hne : other = v
      · refine ⟨fun h => absurd hne h.1, fun _ => ⟨s, if_pos hne, hs⟩⟩
      · obtain ⟨hnull, htake⟩ := hs.assign (f := f) (TaskHandles.copyHandle f)
          (fun s => ⟨_, rfl⟩) fun hs hv hother => hs.copyHandle hv hother (Ne.symm hne)
        dsimp only
        rw [if_neg hne]
        exact ⟨fun h => hnull h.2, fun h => htake fun ho => h ⟨hne, ho⟩⟩
  | moveAssign v other =>
      unfold TaskHandles.run fromEmpty
      by_cases hne : other = v
      · refine ⟨fun h => absurd hne h.1, fun _ => ⟨s, if_pos hne, hs⟩⟩
      · obtain ⟨hnull, htake⟩ := hs.assign (f := f)
          (fun s v => TaskHandles.moveHandle f s v other) (fun s => ⟨_, rfl⟩)
          fun hs hv hother => hs.moveHandle hv hother (Ne.symm hne)
        dsimp only
        rw [if_neg hne]
        exact ⟨fun h => hnull h.2, fun h => htake fun ho => h ⟨hne, ho⟩⟩
  | destroy v =>
      refine ⟨nofun, fun _ => ?_⟩
      obtain ⟨s₁, hdrop, hs₁, hhandle⟩ := hs.destroyOrAbandon (f := f) (v := v) rfl
      unfold TaskHandles.run
      dsimp only
      rw [hdrop]
      exact ⟨_, rfl, hs₁.clear (handleOf_congr hhandle v) share_none⟩

omit [DecidableEq V] in
theorem countedBut_initial : CountedBut none (initial : State V C) := by
  have hzero : ∀ c, (initial : State V C).holders c = 0 := fun c =>
    Finset.sum_eq_zero fun _ _ => rfl
  refine ⟨fun c => (hzero c).symm, fun c => ?_, fun c _ => hzero c⟩
  rw [if_neg nofun]
  rfl

theorem countedBut_of_exec {as : List (Op V C)}
    (hexec : (system f).exec (.ok initial) as = some (.ok s)) : CountedBut none s := by
  have hstart : (system f).Reach (.ok (initial : State V C)) := .start rfl
  refine StepSystem.Reach.invariant (I := fun r => ∀ s, r = .ok s → CountedBut none s)
    (fun r hr s he => ?_) (fun r op r' hi ha s he => ?_) (hstart.exec hexec) s rfl
  · obtain rfl : s = initial := Except.ok.inj (he.symm.trans hr)
    exact countedBut_initial
  · cases r with
    | error fault => cases ha
    | ok s₁ =>
        obtain ⟨hlegal, hrun⟩ := Option.ite_none_right_eq_some.mp ha
        have hrun : run f s₁ op = .ok s := (Option.some.inj hrun).trans he
        obtain ⟨hfault, hok⟩ := (hi s₁ rfl).run (f := f) hlegal
        by_cases hempty : fromEmpty s₁ op
        · obtain ⟨fault, herror⟩ := hfault hempty
          cases herror.symm.trans hrun
        · obtain ⟨s', hs', hcounted⟩ := hok hempty
          obtain rfl : s' = s := Except.ok.inj (hs'.symm.trans hrun)
          exact hcounted

/-- The first operation on a null handle ends the run. -/
theorem exec_ok_iff {as : List (Op V C)} {r : Except Fault (State V C)} (hs : CountedBut none s)
    (hexec : (system f).exec (.ok s) as = some r) :
    (∃ s', r = .ok s') ↔
      ∀ before op after s₁, as = before ++ op :: after →
        (system f).exec (.ok s) before = some (.ok s₁) → ¬ fromEmpty s₁ op := by
  induction as generalizing s with
  | nil =>
      obtain rfl : Except.ok s = r := Option.some.inj hexec
      refine ⟨fun _ before op after s₁ he => ?_, fun _ => ⟨s, rfl⟩⟩
      exact absurd he.symm (by simp)
  | cons op as ih =>
      rw [StepSystem.exec_cons, Option.bind_eq_some_iff] at hexec
      obtain ⟨r₁, hstep, hrest⟩ := hexec
      obtain ⟨hlegal, he⟩ := Option.ite_none_right_eq_some.mp hstep
      obtain ⟨hfault, hok⟩ := hs.run (f := f) hlegal
      by_cases hempty : fromEmpty s op
      · obtain ⟨fault, hrun⟩ := hfault hempty
        refine ⟨fun h => ?_, fun h => absurd hempty (h [] op as s rfl rfl)⟩
        obtain ⟨s', rfl⟩ := h
        obtain rfl : Except.error fault = r₁ := hrun.symm.trans (Option.some.inj he)
        cases as with
        | nil => cases hrest
        | cons op' as => cases hrest
      · obtain ⟨s₁, hrun, hs₁⟩ := hok hempty
        obtain rfl : Except.ok s₁ = r₁ := hrun.symm.trans (Option.some.inj he)
        rw [ih hs₁ hrest]
        constructor
        · intro h before op' after s₂ hsplit hbefore
          cases before with
          | nil =>
              obtain ⟨rfl, -⟩ := List.cons.inj hsplit
              obtain rfl : s = s₂ := by simpa using hbefore
              exact hempty
          | cons b before =>
              obtain ⟨rfl, rfl⟩ := List.cons.inj hsplit
              rw [StepSystem.exec_cons, hstep] at hbefore
              exact h before op' after s₂ rfl hbefore
        · intro h before op' after s₂ hsplit hbefore
          refine h (op :: before) op' after s₂ (congrArg _ hsplit) ?_
          rw [StepSystem.exec_cons, hstep]
          exact hbefore

/-- A sequence of operations runs without a fault, with as many references of every
coroutine as handles and with an abandon part for its last one, if and only if no
handle is moved or assigned from a variable whose handle is null. -/
theorem handles_count_references {as : List (Op V C)} {r : Except Fault (State V C)}
    (hexec : (system f).exec (.ok initial) as = some r) :
    (∃ s, r = .ok s ∧ Counted s) ↔
      ∀ before op after s, as = before ++ op :: after →
        (system f).exec (.ok initial) before = some (.ok s) → ¬ fromEmpty s op := by
  rw [← exec_ok_iff countedBut_initial hexec]
  constructor
  · rintro ⟨s, rfl, -⟩
    exact ⟨s, rfl⟩
  · rintro ⟨s, rfl⟩
    exact ⟨s, rfl, (countedBut_of_exec hexec).counted⟩

/-- A handle is moved, and dropped from its new variable. -/
theorem handles_count_references_moved : ∃ s : State Bool Unit,
    (system fun _ => true).exec (.ok initial)
      [.create true (), .moveConstruct false true, .destroy false] = some (.ok s) ∧ Counted s := by
  obtain ⟨r, hexec⟩ : ∃ r, (system fun _ : Unit => true).exec (.ok (initial : State Bool Unit))
      [.create true (), .moveConstruct false true, .destroy false] = some r := ⟨_, rfl⟩
  obtain ⟨s, rfl, hcounted⟩ := (handles_count_references hexec).mpr
    fun before op after s hsplit hbefore => by
      rcases before with _ | ⟨a, _ | ⟨b, _ | ⟨c, before⟩⟩⟩
      · cases hsplit
        exact id
      · cases hsplit
        cases hbefore
        exact nofun
      · cases hsplit
        exact id
      · simp at hsplit
  exact ⟨s, hexec, hcounted⟩

/-- A variable without a coroutine is moved. -/
theorem handles_dereference_null :
    (system fun _ : Unit => true).exec (.ok (initial : State Bool Unit))
      [.construct false, .moveConstruct true false] = some (.error .nullHandle) := rfl

end Runs

end LevelzAsync.TaskHandles
