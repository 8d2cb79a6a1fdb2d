import LevelzAsync.AsyncScope

/-!
# The tracker objects of a scope

An `AsyncScopeTracker` is a movable object: `onEnter` makes one that holds the scope,
its destructor leaves the scope, and the moves hand the scope on. A move assignment does
not leave the scope that the target held, and the counter has eight bits. Apart from
that the counter of each scope counts the trackers that hold it.
-/

namespace LevelzAsync.AsyncScopeTracker

structure Tracker (S : Type*) where
  asyncScope : Option S
  entryCount : UInt8
  deriving DecidableEq

/-- The tracker objects that live are in `tracker`, and the calls of `waitTillEmpty` that
have not returned in `waiting`. -/
structure State (S V W : Type*) where
  count : S → UInt8
  tracker : V → Option (Tracker S)
  waiting : W → Option S

/-- A constructor, `onEnter`, a move or the destructor of a tracker; a call of
`waitTillEmpty` begins; or it reads the counter. -/
inductive Action (S V W : Type*)
  | construct (v : V)
  | onEnter (v : V) (scope : S)
  | moveConstruct (v other : V)
  | moveAssign (v other : V)
  | destroy (v : V)
  | waitTillEmpty (w : W) (scope : S)
  | readCount (w : W)

section Machine

variable {S V W : Type*}

/-- Default-constructed, or moved from. -/
def emptyTracker : Tracker S := ⟨none, 0⟩

def Tracker.holds [DecidableEq S] (scope : S) (t : Tracker S) : Bool := t.asyncScope = some scope

def State.isEmpty (s : State S V W) (scope : S) : Bool := s.count scope = 0

def State.holds [DecidableEq S] (s : State S V W) (scope : S) (v : V) : Bool :=
  (s.tracker v).any (Tracker.holds scope)

/-- One scope, with the trackers as what is inside. -/
def State.scope [DecidableEq S] (s : State S V W) (scope : S) : AsyncScope V :=
  ⟨s.count scope, s.holds scope⟩

variable [DecidableEq V]

def State.set (s : State S V W) (v : V) (t : Option (Tracker S)) : State S V W :=
  { s with tracker := Function.update s.tracker v t }

variable [DecidableEq S]

def State.setCount (s : State S V W) (scope : S) (count : UInt8) : State S V W :=
  { s with count := Function.update s.count scope count }

def State.onExit (s : State S V W) : Option S → State S V W
  | some scope => s.setCount scope (s.count scope - 1)
  | none => s

variable [DecidableEq W]

def step (s : State S V W) : Action S V W → Option (State S V W)
  | .construct v => if s.tracker v = none then some (s.set v (some emptyTracker)) else none
  | .onEnter v scope =>
      if s.tracker v = none then
        some ((s.setCount scope (s.count scope + 1)).set v (some ⟨some scope, s.count scope⟩))
      else none
  | .moveConstruct v other =>
      if s.tracker v = none then
        (s.tracker other).map fun t => (s.set v (some t)).set other (some emptyTracker)
      else none
  | .moveAssign v other =>
      if (s.tracker v).isSome = true then
        (s.tracker other).map fun t =>
          if v = other then s else (s.set v (some t)).set other (some emptyTracker)
      else none
  | .destroy v => (s.tracker v).map fun t => (s.onExit t.asyncScope).set v none
  | .waitTillEmpty w scope =>
      if s.waiting w = none then
        some { s with waiting := Function.update s.waiting w (some scope) }
      else none
  | .readCount w =>
      (s.waiting w).map fun scope =>
        if s.isEmpty scope = true then { s with waiting := Function.update s.waiting w none } else s

def initial : State S V W := ⟨fun _ => 0, fun _ => none, fun _ => none⟩

def system (S V W : Type*) [DecidableEq S] [DecidableEq V] [DecidableEq W] :
    StepSystem (State S V W) (Action S V W) where
  start s := s = initial
  step := step

variable [Fintype V]

/-- No scope is entered while 255 trackers hold it, and nothing is moved from another
tracker into one that holds a scope. -/
def Careful (s : State S V W) : Action S V W → Prop
  | .onEnter _ scope => (s.scope scope).entered < 255
  | .moveAssign v other => v ≠ other → (s.tracker v).all (fun t => t.asyncScope.isNone) = true
  | _ => True

instance (s : State S V W) (a : Action S V W) : Decidable (Careful s a) :=
  match a with
  | .onEnter _ scope => inferInstanceAs (Decidable ((s.scope scope).entered < 255))
  | .moveAssign v other =>
      inferInstanceAs (Decidable (v ≠ other →
        (s.tracker v).all (fun t => t.asyncScope.isNone) = true))
  | .construct _ | .moveConstruct _ _ | .destroy _ | .waitTillEmpty _ _ | .readCount _ =>
      inferInstanceAs (Decidable True)

end Machine

section Counts

variable {S V W : Type*} [DecidableEq S] [Fintype V] {s s' : State S V W}

/-- The share of a place for a tracker in the count of a scope. -/
def share (scope : S) (t : Option (Tracker S)) : ℕ := (t.any (Tracker.holds scope)).toNat

/-- Each counter is the number of the trackers that hold the scope, below 256. -/
def Exact (s : State S V W) : Prop :=
  ∀ scope, (s.scope scope).Counts ∧ (s.scope scope).entered < 256

theorem Exact.congr (h : Exact s) (hcount : s'.count = s.count)
    (hentered : ∀ scope, (s'.scope scope).entered = (s.scope scope).entered) : Exact s' :=
  fun scope => ⟨(h scope).1.congr (congrFun hcount scope) (hentered scope),
    hentered scope ▸ (h scope).2⟩

theorem share_none (scope : S) : share scope none = 0 := rfl

theorem share_emptyTracker (scope : S) : share scope (some emptyTracker) = 0 := rfl

theorem share_free {o : Option (Tracker S)} (h : o.all (fun t => t.asyncScope.isNone) = true)
    (scope : S) : share scope o = 0 := by
  cases o with
  | none => rfl
  | some t =>
      obtain ⟨asyncScope, entryCount⟩ := t
      cases asyncScope with
      | none => rfl
      | some sc => cases h

theorem share_held (scope : S) (entryCount : UInt8) (sc : S) :
    share scope (some ⟨some sc, entryCount⟩) = if sc = scope then 1 else 0 := by
  unfold share
  by_cases h : sc = scope
  · simp [Tracker.holds, h]
  · simp [Tracker.holds, h]

variable [DecidableEq V] {v other : V} {t : Tracker S}

theorem entered_set (s : State S V W) (v : V) (t : Option (Tracker S)) (scope : S) :
    ((s.set v t).scope scope).entered + share scope (s.tracker v) =
      (s.scope scope).entered + share scope t :=
  sum_update_tally s.tracker (share scope) v t

/-- A move hands on what the other tracker holds to a place that holds nothing. -/
theorem entered_move (hne : v ≠ other) (hother : s.tracker other = some t)
    (hfree : ∀ scope, share scope (s.tracker v) = 0) (scope : S) :
    (((s.set v (some t)).set other (some emptyTracker)).scope scope).entered =
      (s.scope scope).entered := by
  have hfirst := entered_set s v (some t) scope
  have hsecond := entered_set (s.set v (some t)) other (some emptyTracker) scope
  have hkept : (s.set v (some t)).tracker other = some t :=
    (Function.update_of_ne hne.symm ..).trans hother
  rw [hfree] at hfirst
  rw [hkept, share_emptyTracker] at hsecond
  omega

theorem Exact.move (h : Exact s) (hne : v ≠ other) (hother : s.tracker other = some t)
    (hfree : ∀ scope, share scope (s.tracker v) = 0) :
    Exact ((s.set v (some t)).set other (some emptyTracker)) :=
  h.congr rfl (entered_move hne hother hfree)

theorem Exact.onEnter {sc : S} (h : Exact s) (hv : s.tracker v = none)
    (hlt : (s.scope sc).entered < 255) :
    Exact ((s.setCount sc (s.count sc + 1)).set v (some ⟨some sc, s.count sc⟩)) := by
  intro scope
  have hentered := entered_set (s.setCount sc (s.count sc + 1)) v
    (some ⟨some sc, s.count sc⟩) scope
  change _ + share scope (s.tracker v) = (s.scope scope).entered + _ at hentered
  rw [hv, share_none, share_held] at hentered
  by_cases hsc : sc = scope
  · subst hsc
    rw [if_pos rfl] at hentered
    exact ⟨(h sc).1.enter (Function.update_self ..) hentered, by omega⟩
  · rw [if_neg hsc] at hentered
    exact ⟨(h scope).1.congr (Function.update_of_ne (Ne.symm hsc) ..) hentered,
      by have := (h scope).2; omega⟩

theorem Exact.onExit {asyncScope : Option S} {entryCount : UInt8} (h : Exact s)
    (hv : s.tracker v = some ⟨asyncScope, entryCount⟩) :
    Exact ((s.onExit asyncScope).set v none) := by
  intro scope
  have hentered := entered_set (s.onExit asyncScope) v none scope
  have hle := (h scope).2
  cases asyncScope with
  | none =>
      change _ + share scope (s.tracker v) = (s.scope scope).entered + _ at hentered
      rw [hv, share_none, share_free rfl] at hentered
      exact ⟨(h scope).1.congr rfl hentered, by omega⟩
  | some sc =>
      change _ + share scope (s.tracker v) = (s.scope scope).entered + _ at hentered
      rw [hv, share_held, share_none] at hentered
      by_cases hsc : sc = scope
      · subst hsc
        rw [if_pos rfl] at hentered
        exact ⟨(h sc).1.leave (Function.update_self ..) hentered.symm, by omega⟩
      · rw [if_neg hsc] at hentered
        exact ⟨(h scope).1.congr (Function.update_of_ne (Ne.symm hsc) ..) hentered, by omega⟩

variable [DecidableEq W]

theorem Exact.step {a : Action S V W} (h : Exact s) (hg : Careful s a) (hs : step s a = some s') :
    Exact s' := by
  cases a with
  | construct v =>
      obtain ⟨hv, he⟩ := Option.ite_none_right_eq_some.mp hs
      cases he
      refine h.congr rfl fun scope => ?_
      have hentered := entered_set s v (some emptyTracker) scope
      rwa [hv, share_none, share_emptyTracker] at hentered
  | onEnter v scope =>
      obtain ⟨hv, he⟩ := Option.ite_none_right_eq_some.mp hs
      cases he
      exact h.onEnter hv hg
  | moveConstruct v other =>
      obtain ⟨hv, hs⟩ := Option.ite_none_right_eq_some.mp hs
      obtain ⟨t, ht, rfl⟩ := Option.map_eq_some_iff.mp hs
      have hne : v ≠ other := by
        rintro rfl
        rw [hv] at ht
        cases ht
      exact h.move hne ht fun scope => by rw [hv, share_none]
  | moveAssign v other =>
      obtain ⟨-, hs⟩ := Option.ite_none_right_eq_some.mp hs
      obtain ⟨t, ht, rfl⟩ := Option.map_eq_some_iff.mp hs
      by_cases hne : v = other
      · rw [if_pos hne]
        exact h
      · rw [if_neg hne]
        exact h.move hne ht (share_free (hg hne))
  | destroy v =>
      obtain ⟨⟨asyncScope, entryCount⟩, ht, rfl⟩ := Option.map_eq_some_iff.mp hs
      exact h.onExit ht
  | waitTillEmpty w scope =>
      obtain ⟨-, he⟩ := Option.ite_none_right_eq_some.mp hs
      cases he
      exact h
  | readCount w =>
      obtain ⟨scope, -, rfl⟩ := Option.map_eq_some_iff.mp hs
      split_ifs
      · exact h
      · exact h

theorem exact_of_reach (hs : (system S V W).ReachWhile Careful s) : Exact s := by
  refine StepSystem.ReachWhile.invariant (fun s hstart scope => ?_)
    (fun s a s' hi hg ha => hi.step hg ha) hs
  obtain rfl : s = initial := hstart
  have hzero : ((initial : State S V W).scope scope).entered = 0 :=
    Finset.sum_eq_zero fun _ _ => rfl
  refine ⟨?_, by omega⟩
  rw [AsyncScope.Counts, hzero]
  rfl

/-- While no scope is held 256 times, and nothing is moved into a tracker that holds a
scope, a scope is empty exactly when no tracker holds it, and `waitTillEmpty` returns
exactly when it reads the counter at such a moment. -/
theorem isEmpty_iff_not_held (hs : (system S V W).ReachWhile Careful s) :
    (∀ scope, s.isEmpty scope = true ↔ ∀ v, s.holds scope v = false) ∧
      ∀ w scope s', s.waiting w = some scope → step s (.readCount w) = some s' →
        (s'.waiting w = none ↔ ∀ v, s.holds scope v = false) := by
  have hexact : ∀ scope, s.isEmpty scope = true ↔ ∀ v, s.holds scope v = false := fun scope =>
    (exact_of_reach hs scope).1.isEmpty_iff (exact_of_reach hs scope).2
  refine ⟨hexact, fun w scope s' hw ha => ?_⟩
  obtain ⟨sc, hsc, rfl⟩ := Option.map_eq_some_iff.mp ha
  obtain rfl : scope = sc := Option.some.inj (hw.symm.trans hsc)
  rw [← hexact scope]
  split_ifs with hempty
  · simp [hempty]
  · simp [hempty, hw]

/-- A tracker is moved into one that was default-constructed, while a call waits. -/
theorem isEmpty_iff_not_held_moved : ∃ s : State Unit Bool Unit,
    (system Unit Bool Unit).Reach s ∧ s.holds () true = true ∧ s.isEmpty () = false := by
  obtain ⟨s, hs, hheld⟩ := StepSystem.Reach.exists_of_exec
    (M := (system Unit Bool Unit).restrict Careful)
    (P := fun s => s.holds () true = true)
    (s := initial) (.start rfl)
    [.construct true, .onEnter false (), .moveAssign true false, .destroy false,
      .waitTillEmpty () (), .readCount ()]
    (by decide)
  obtain ⟨hempty, -⟩ := isEmpty_iff_not_held hs.reachWhile
  refine ⟨s, hs.reachWhile.reach, hheld, ?_⟩
  by_contra hn
  have := (hempty ()).mp (by simpa using hn) true
  rw [hheld] at this
  cases this

/-- A scope held by 256 trackers looks empty; a scope that a move assignment made a
tracker forget looks as if a call were inside. -/
theorem isEmpty_wrong :
    (∃ s : State Unit (Fin 256) Unit, (system Unit (Fin 256) Unit).Reach s ∧
      s.holds () 0 = true ∧ s.isEmpty () = true) ∧
    ∃ s : State Unit Bool Unit, (system Unit Bool Unit).Reach s ∧
      (∀ v, s.holds () v = false) ∧ s.isEmpty () = false := by
  constructor
  · exact StepSystem.Reach.exists_of_exec (M := system Unit (Fin 256) Unit)
      (P := fun s => s.holds () 0 = true ∧ s.isEmpty () = true) (s := initial) (.start rfl)
      ((List.finRange 256).map fun v => .onEnter v ()) (by decide +kernel)
  · exact StepSystem.Reach.exists_of_exec (M := system Unit Bool Unit)
      (P := fun s => (∀ v, s.holds () v = false) ∧ s.isEmpty () = false) (s := initial)
      (.start rfl) [.construct false, .onEnter true (), .moveAssign true false] (by decide)

end Counts

end LevelzAsync.AsyncScopeTracker
