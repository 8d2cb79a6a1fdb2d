import Mathlib.Data.Finset.Card
import Mathlib.Logic.Function.Basic

/-!
# A mutex with a condition variable

`waiting` holds the threads that are blocked on the condition variable with no
wake-up on its way. A thread that was woken has left it and still has to take
the mutex again.
-/

structure Monitor (Thread : Type*) where
  owner : Option Thread
  waiting : Finset Thread

namespace Monitor

variable {Thread : Type*} [DecidableEq Thread] (m : Monitor Thread) (t u : Thread)

def free : Monitor Thread where
  owner := none
  waiting := ∅

def lock : Option (Monitor Thread) :=
  if m.owner = none then some { m with owner := some t } else none

def unlock : Monitor Thread := { m with owner := none }

/-- The mutex is released and the thread blocked in one step. -/
def wait : Monitor Thread where
  owner := none
  waiting := insert t m.waiting

def wake : Monitor Thread := { m with waiting := m.waiting.erase t }

/-- The woken thread `u` is one of those that wait, if any does. -/
def notifyOne : Option (Monitor Thread) :=
  if m.waiting = ∅ then some m else if u ∈ m.waiting then some (m.wake u) else none

/-- The end of a wait: the thread was woken and takes the mutex again. -/
def reacquire : Option (Monitor Thread) := if t ∈ m.waiting then none else m.lock t

variable {m t u} {m' : Monitor Thread}

omit [DecidableEq Thread] in
theorem lock_eq (h : m.lock t = some m') : m.owner = none ∧ m' = { m with owner := some t } := by
  obtain ⟨ho, hm⟩ := Option.ite_none_right_eq_some.mp h
  exact ⟨ho, (Option.some.inj hm).symm⟩

theorem reacquire_eq (h : m.reacquire t = some m') :
    t ∉ m.waiting ∧ m.owner = none ∧ m' = { m with owner := some t } := by
  obtain ⟨ht, hl⟩ := Option.ite_none_left_eq_some.mp h
  exact ⟨ht, lock_eq hl⟩

theorem notifyOne_owner (h : m.notifyOne u = some m') : m'.owner = m.owner := by
  unfold notifyOne at h
  split_ifs at h
  · rw [← Option.some.inj h]
  · rw [← Option.some.inj h]
    rfl

theorem notifyOne_waiting (h : m.notifyOne u = some m') : m'.waiting = m.waiting.erase u := by
  unfold notifyOne at h
  split_ifs at h with he
  · rw [← Option.some.inj h, he]
    rfl
  · rw [← Option.some.inj h]
    rfl

/-- Somebody is woken if anybody waits. -/
theorem mem_of_notifyOne (h : m.notifyOne u = some m') (ht : t ∈ m.waiting) :
    u ∈ m.waiting := by
  unfold notifyOne at h
  split_ifs at h with he hu
  · rw [he] at ht
    cases ht
  · exact hu

theorem notifyOne_card (h : m.notifyOne u = some m') :
    m'.waiting.card = m.waiting.card - 1 := by
  unfold notifyOne at h
  split_ifs at h with he hu
  · rw [← Option.some.inj h, he]
    rfl
  · rw [← Option.some.inj h]
    exact Finset.card_erase_of_mem hu

/-- The threads inside their critical sections are those that own the mutex. -/
def Guards {Phase : Type*} (inside : Phase → Bool) (m : Monitor Thread) (call : Thread → Phase) :
    Prop :=
  ∀ t, inside (call t) = true ↔ m.owner = some t

section Guards

variable {Phase : Type*} {inside : Phase → Bool} {call : Thread → Phase} {p : Phase}

omit [DecidableEq Thread] in
theorem Guards.eq (h : m.Guards inside call) (ht : inside (call t) = true)
    (hu : inside (call u) = true) : t = u :=
  Option.some.inj (((h t).mp ht).symm.trans ((h u).mp hu))

theorem Guards.enter (h : m.Guards inside call) (hfree : m.owner = none)
    (howner : m'.owner = some t) (hp : inside p = true) :
    m'.Guards inside (Function.update call t p) := by
  intro u
  rw [howner]
  by_cases hu : u = t
  · rw [hu, Function.update_self]
    simp only [hp]
  · have hout : inside (call u) ≠ true := by
      intro hi
      rw [(h u).mp hi] at hfree
      cases hfree
    rw [Function.update_of_ne hu]
    exact ⟨fun hi => absurd hi hout, fun he => absurd (Option.some.inj he).symm hu⟩

theorem Guards.leave (h : m.Guards inside call) (ht : inside (call t) = true)
    (howner : m'.owner = none) (hp : inside p = false) :
    m'.Guards inside (Function.update call t p) := by
  intro u
  rw [howner]
  by_cases hu : u = t
  · rw [hu, Function.update_self, hp]
    exact ⟨nofun, nofun⟩
  · rw [Function.update_of_ne hu]
    exact ⟨fun hi => absurd (h.eq hi ht) hu, nofun⟩

theorem Guards.stay (h : m.Guards inside call) (howner : m'.owner = m.owner)
    (hp : inside p = inside (call t)) : m'.Guards inside (Function.update call t p) := by
  intro u
  rw [howner, ← h u]
  by_cases hu : u = t
  · rw [hu, Function.update_self, hp]
  · rw [Function.update_of_ne hu]

end Guards

end Monitor
