import LevelzAsync.StepSystem
import Mathlib.Logic.Function.Basic

/-!
# Counting the calls inside an object

`AsyncScope` counts the calls that have entered and not yet left, in eight bits.
`waitTillEmpty` tells that nobody is inside as long as the counter has not gone
round.
-/

namespace LevelzAsync

structure AsyncScope (Thread : Type*) where
  /-- `m_count`. -/
  count : UInt8
  /-- The thread has entered and not yet left. -/
  inside : Thread → Bool

namespace AsyncScope

variable {Thread : Type*}

def empty : AsyncScope Thread where
  count := 0
  inside _ := false

def onEnter [DecidableEq Thread] (s : AsyncScope Thread) (t : Thread) : AsyncScope Thread where
  count := s.count + 1
  inside := Function.update s.inside t true

def onExit [DecidableEq Thread] (s : AsyncScope Thread) (t : Thread) : AsyncScope Thread where
  count := s.count - 1
  inside := Function.update s.inside t false

def isEmpty (s : AsyncScope Thread) : Bool := s.count = 0

variable [Fintype Thread] {s : AsyncScope Thread} {t : Thread}

def entered (s : AsyncScope Thread) : ℕ := ∑ t, (s.inside t).toNat

/-- The counter holds what eight bits can hold of their number. -/
def Counts (s : AsyncScope Thread) : Prop := s.count = UInt8.ofNat s.entered

theorem counts_empty : (empty : AsyncScope Thread).Counts := by
  have : (empty : AsyncScope Thread).entered = 0 := Finset.sum_eq_zero fun _ _ => rfl
  rw [Counts, this]
  rfl

theorem Counts.congr {s' : AsyncScope Thread} (h : s.Counts) (hcount : s'.count = s.count)
    (hentered : s'.entered = s.entered) : s'.Counts := by
  rw [Counts, hcount, hentered]
  exact h

theorem Counts.enter {s' : AsyncScope Thread} (h : s.Counts) (hcount : s'.count = s.count + 1)
    (hentered : s'.entered = s.entered + 1) : s'.Counts := by
  rw [Counts, hentered, UInt8.ofNat_add, ← h, hcount]
  rfl

theorem Counts.leave {s' : AsyncScope Thread} (h : s.Counts) (hcount : s'.count = s.count - 1)
    (hentered : s.entered = s'.entered + 1) : s'.Counts := by
  rw [Counts] at h
  rw [Counts, hcount, h, hentered, UInt8.ofNat_add]
  simp

theorem Counts.onEnter [DecidableEq Thread] (h : s.Counts) (ht : s.inside t = false) :
    (s.onEnter t).Counts := by
  have hsum := sum_update_tally s.inside Bool.toNat t true
  rw [ht] at hsum
  refine h.enter rfl ?_
  simpa [entered, AsyncScope.onEnter] using hsum

theorem Counts.onExit [DecidableEq Thread] (h : s.Counts) (ht : s.inside t = true) :
    (s.onExit t).Counts := by
  have hsum := sum_update_tally s.inside Bool.toNat t false
  rw [ht] at hsum
  refine h.leave rfl ?_
  simpa [entered, AsyncScope.onExit] using hsum.symm

/-- Without an overflow the test of `waitTillEmpty` is right. -/
theorem Counts.inside_eq_false (h : s.Counts) (hempty : s.isEmpty = true)
    (hlt : s.entered < 256) (t : Thread) : s.inside t = false := by
  have hcount : s.count = 0 := of_decide_eq_true hempty
  have hzero : s.entered = 0 := by
    have := congrArg UInt8.toNat (h.symm.trans hcount)
    simp at this
    omega
  have hle := le_sum_tally s.inside Bool.toNat t
  by_contra hn
  rw [show s.inside t = true by simpa using hn, Bool.toNat_true] at hle
  unfold entered at hzero
  omega

theorem isEmpty_of_entered (h : s.Counts) (hzero : s.entered = 0) : s.isEmpty = true := by
  rw [Counts, hzero] at h
  exact decide_eq_true h

/-- The test is right while fewer than 256 are inside. -/
theorem Counts.isEmpty_iff (h : s.Counts) (hlt : s.entered < 256) :
    s.isEmpty = true ↔ ∀ t, s.inside t = false := by
  refine ⟨fun hempty => h.inside_eq_false hempty hlt, fun hnone => isEmpty_of_entered h ?_⟩
  refine Finset.sum_eq_zero fun t _ => ?_
  rw [hnone t, Bool.toNat_false]

end AsyncScope

end LevelzAsync
