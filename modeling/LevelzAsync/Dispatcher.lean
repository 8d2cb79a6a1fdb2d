import LevelzAsync.StepSystem
import Mathlib.Logic.Function.Basic

/-!
# First-come first-served dispatchers

A dispatcher has a family of queues and a family of hands. An item enters at the end of
a queue; a free hand takes the first item of some queue and later lets it go. The state
keeps the history: what has entered each queue and was taken from it, and what each hand
has taken and let go. A machine that refines a dispatcher serves every queue in the order
of arrival.
-/

structure Dispatcher (κ η ι : Type*) where
  queue : κ → List ι
  hand : η → Option ι
  entered : κ → List ι
  taken : κ → List ι
  takenBy : η → List ι
  left : η → List ι

namespace Dispatcher

variable {κ η ι : Type*}

inductive Action (κ η ι : Type*)
  | enter (k : κ) (c : ι)
  | take (k : κ) (h : η)
  | leave (h : η)

variable [DecidableEq κ] [DecidableEq η]

def push {α : Type*} [DecidableEq α] (log : α → List ι) (a : α) (c : ι) : α → List ι :=
  Function.update log a (log a ++ [c])

def step (d : Dispatcher κ η ι) : Action κ η ι → Option (Dispatcher κ η ι)
  | .enter k c => some { d with queue := push d.queue k c, entered := push d.entered k c }
  | .take k h =>
      match d.queue k, d.hand h with
      | c :: q, none =>
          some { d with
            queue := Function.update d.queue k q
            hand := Function.update d.hand h (some c)
            taken := push d.taken k c
            takenBy := push d.takenBy h c }
      | _, _ => none
  | .leave h =>
      (d.hand h).map fun c =>
        { d with hand := Function.update d.hand h none, left := push d.left h c }

def empty : Dispatcher κ η ι :=
  ⟨fun _ => [], fun _ => none, fun _ => [], fun _ => [], fun _ => [], fun _ => []⟩

def system (κ η ι : Type*) [DecidableEq κ] [DecidableEq η] :
    StepSystem (Dispatcher κ η ι) (Action κ η ι) where
  start d := d = empty
  step := step

/-- What came in and is not in the queue has been taken, in the same order; a hand lets go
what it takes, one by one. -/
structure Served (d : Dispatcher κ η ι) : Prop where
  queues : ∀ k, d.entered k = d.taken k ++ d.queue k
  hands : ∀ h, d.takenBy h = d.left h ++ (d.hand h).toList

variable {α : Type*} [DecidableEq α] {log rest : α → List ι} {a b : α} {c : ι}

theorem push_self : push log a c a = log a ++ [c] := Function.update_self ..

theorem push_of_ne (h : b ≠ a) : push log a c b = log b := Function.update_of_ne h ..

/-- At one place an item passes from the front of the rest to the log. -/
theorem push_append {q : List ι} (h : rest a = c :: q) (b : α) :
    push log a c b ++ Function.update rest a q b = log b ++ rest b := by
  by_cases hb : b = a
  · subst hb
    rw [push_self, Function.update_self, h, List.append_assoc, List.singleton_append]
  · rw [push_of_ne hb, Function.update_of_ne hb]

theorem Served.step {d d' : Dispatcher κ η ι} {a : Action κ η ι} (h : d.Served)
    (hs : d.step a = some d') : d'.Served := by
  cases a with
  | enter k c =>
      cases hs
      refine ⟨fun j => ?_, h.hands⟩
      dsimp only
      by_cases hj : j = k
      · subst hj
        rw [push_self, push_self, h.queues, List.append_assoc]
      · rw [push_of_ne hj, push_of_ne hj, h.queues]
  | take k i =>
      unfold Dispatcher.step at hs
      dsimp only at hs
      split at hs
      · next c q hq hhand =>
          cases hs
          refine ⟨fun j => ?_, fun j => ?_⟩
          · exact (h.queues j).trans (push_append hq j).symm
          · dsimp only
            by_cases hj : j = i
            · subst hj
              rw [push_self, Function.update_self, h.hands, hhand]
              simp
            · rw [push_of_ne hj, Function.update_of_ne hj, h.hands]
      · cases hs
  | leave i =>
      obtain ⟨c, hc, rfl⟩ := Option.map_eq_some_iff.mp hs
      refine ⟨h.queues, fun j => ?_⟩
      dsimp only
      by_cases hj : j = i
      · subst hj
        rw [push_self, Function.update_self, h.hands, hc]
        simp
      · rw [push_of_ne hj, Function.update_of_ne hj, h.hands]

theorem served_of_reach {d : Dispatcher κ η ι} (hd : (system κ η ι).Reach d) : d.Served := by
  refine hd.invariant (fun d hstart => ?_) fun d a d' h ha => h.step ha
  obtain rfl : d = empty := hstart
  exact ⟨fun _ => rfl, fun _ => rfl⟩

end Dispatcher
