import LevelzAsync.AsyncBarrier
import LevelzAsync.Custody

/-!
# Rounds of the asynchronous barrier

An arrival is in the wait list, in the hands of the call that takes it out, or is
the arrival that releases the others; `arrived` and `released` are its ledger.
While no cancellation has taken a node, the wait list begins with the nodes that
the release under way still has to take, and goes on with arrivals of the next
round; only the latter have incremented `m_count`. A release begins when all the
others have, so that there is one release at a time and its nodes are there.
-/

namespace LevelzAsync.AsyncBarrier

variable {Thread P : Type*}

inductive Hand
  | node
  | own
  deriving DecidableEq

/-- The releaser whose own node has not come by, if it is in the list at all. -/
def Releaser.queued : Releaser P → Option P
  | .suspend p _ false => some p
  | _ => none

/-- The releaser that does not wait in the list, or no more. -/
def Releaser.held : Releaser P → Option P
  | .ready p | .suspend p _ true => some p
  | _ => none

def Releaser.skipped : Releaser P → Bool
  | .ready _ => false
  | .suspend _ _ skipped => skipped

/-- What a call has to do with the round: it is the call of an arrival that has
not incremented `m_count`, or it releases the others. -/
inductive Role (P : Type*)
  | away
  | entering (p : P)
  | storing (releaser : Releaser P)
  | releasing (releaser : Releaser P) (left : ℕ) (node : Option P)

namespace Role

def uncounted : Role P → Option P
  | away => none
  | entering p => some p
  | storing releaser | releasing releaser _ _ => some releaser.participant

def releases : Role P → Bool
  | storing _ | releasing _ _ _ => true
  | _ => false

def dequeues : Role P → Bool
  | releasing _ _ _ => true
  | _ => false

end Role

namespace Call

def awaits : Call P → Option P
  | ready p | readyIsCanceled p | readyRelease p | suspend p | suspendIsCanceled p _
  | loadCount p _ | isCanceled p _ _ | enqueue p _ _ => some p
  | _ => none

def role : Call P → Role P
  | isCanceledAgain p _ _ | arrive p _ _ | releaseLoad p _ => .entering p
  | releaseStore releaser => .storing releaser
  | releaseDequeue releaser left => .releasing releaser left none
  | releaseSchedule releaser node left => .releasing releaser left (some node)
  | _ => .away

def held : Call P → Hand → Option P
  | releaseSchedule _ node _, .node | drainSchedule node, .node => some node
  | releaseStore releaser, .own | releaseDequeue releaser _, .own
  | releaseSchedule releaser _ _, .own => releaser.held
  | _, _ => none

/-- The value of `m_count` that the call goes by. -/
def localCount : Call P → Option ℕ
  | isCanceled _ _ count | enqueue _ _ count | isCanceledAgain _ _ count
  | arrive _ _ count => some count
  | _ => none

/-- The call has found that it is the last to arrive. -/
def seesLast (capacity : ℕ) : Call P → Bool
  | isCanceled _ _ count | enqueue _ _ count | isCanceledAgain _ _ count
  | arrive _ _ count => count + 1 = capacity
  | releaseLoad _ _ | releaseStore _ => true
  | _ => false

/-- A cancellation that is emptying the wait list, or is going to. -/
def drains : Call P → Bool
  | drainDequeue | drainSchedule _ => true
  | _ => false

/-- A call that looks at the wait list of a cancelled barrier before it returns. -/
def responsible : Call P → Bool
  | isCanceledAgain _ _ _ | drainDequeue | drainSchedule _ => true
  | _ => false

end Call

def State.holds (s : State Thread P) (h : Thread × Hand) : Option P := (s.call h.1).held h.2

theorem State.holds_eq (s : State Thread P) : s.holds = inHands Call.held s.call := rfl

/-- A cancelled barrier whose wait list is not empty has a call that looks at the
list again. -/
def Watched (s : State Thread P) : Prop :=
  s.canceled = true → s.waitList ≠ [] → ∃ t, (s.call t).responsible = true

/-- Every arrival is in one place, and a participant that awaits the barrier has no
arrival there. -/
structure Arrivals (s : State Thread P) : Prop where
  ledger : Ledger (fun _ : Unit => s.waitList) s.holds s.arrived s.released
  place : ∀ p, s.released p < s.arrived p → s.co p = .suspended ∨ s.co p = .arriving
  awaits : ∀ t p, (s.call t).awaits = some p → s.co p = .arriving ∧ s.arrived p = s.released p
  unique : ∀ t u p, (s.call t).awaits = some p → (s.call u).awaits = some p → t = u

/-- What a call goes by still holds. -/
structure Call.Fits (s : State Thread P) (c : Call P) : Prop where
  localCount_lt : ∀ count, c.localCount = some count → count < s.capacity
  alive : c ≠ .failed
  last : c.seesLast s.capacity = true → s.count + 1 = s.capacity
  drains : c.drains = true → s.canceled = true
  node : ∀ p, c = .drainSchedule p → s.drained = true
  drained : s.drained = true → c.role.releases = false

structure Calls (s : State Thread P) : Prop where
  count_lt : ∀ _ : P, s.count < s.capacity
  drained : s.drained = true → s.canceled = true
  fits : ∀ t, (s.call t).Fits s

/-- What a call has to do with the round agrees with the wait list, whose first `k`
nodes belong to the release under way. -/
structure Role.Fits (s : State Thread P) (k : ℕ) (r : Role P) : Prop where
  uncounted : ∀ p, r.uncounted = some p → s.counted p = false
  entering : ∀ p, r = .entering p → p ∈ s.waitList.drop k
  storing : ∀ releaser, r = .storing releaser →
    (∀ p, p ≠ releaser.participant → s.counted p = true) ∧
    (∀ p, releaser.queued = some p → p ∈ s.waitList) ∧
    s.rounds < s.arrived releaser.participant ∧ releaser.skipped = false
  releasing : ∀ releaser left node, r = .releasing releaser left node →
    left = k ∧ (∀ p, releaser.queued = some p → p ∈ s.waitList.take k) ∧
    s.released releaser.participant < s.rounds ∧ ∀ p, node = some p → s.released p < s.rounds

structure Roles (s : State Thread P) (k : ℕ) : Prop where
  idle : (∀ t, (s.call t).role.dequeues = false) → k = 0
  fits : ∀ t, (s.call t).role.Fits s k
  unique : ∀ t u p, (s.call t).role.uncounted = some p → (s.call u).role.uncounted = some p →
    t = u
  alone : ∀ t u, (s.call t).role.releases = true → (s.call u).role.releases = true → t = u

variable [Fintype P]

structure Counts (s : State Thread P) (k : ℕ) : Prop where
  count_eq : s.count = (Finset.univ.filter fun p => s.counted p = true).card
  le : k ≤ s.waitList.length
  counted : ∀ p, s.counted p = true → p ∈ s.waitList.drop k
  old : ∀ p ∈ s.waitList.take k, s.released p < s.rounds
  fresh : ∀ p ∈ s.waitList.drop k, s.rounds < s.arrived p
  rounds_le : ∀ p, s.rounds ≤ s.arrived p
  released_le : ∀ p, s.released p ≤ s.rounds

/-- The state of the round before a cancellation takes a node. -/
structure Round (s : State Thread P) (k : ℕ) : Prop extends Counts s k, Roles s k

structure Inv (s : State Thread P) : Prop where
  participants : Fintype.card P ≤ s.capacity
  arrivals : Arrivals s
  calls : Calls s
  round : s.drained = false → ∃ k, Round s k

section Changes

variable [DecidableEq Thread] {s s' : State Thread P} {t : Thread} {c : Call P} {p : P} {k : ℕ}
  {rest : List P}

namespace Arrivals

omit [Fintype P] in
theorem awaits_sub (hcall : s'.call = Function.update s.call t c)
    (hc : c.awaits = none ∨ c.awaits = (s.call t).awaits) {u : Thread}
    (h : (s'.call u).awaits = some p) : (s.call u).awaits = some p := by
  rcases agent_cases (Q := fun c => c.awaits = some p) hcall h with ⟨rfl, h⟩ | ⟨_, h⟩
  · rcases hc with hn | hs
    · rw [hn] at h
      cases h
    · exact hs ▸ h
  · exact h

omit [Fintype P] in
/-- Nobody begins to await the barrier. -/
theorem of_ledger (ha : Arrivals s) (hcall : s'.call = Function.update s.call t c)
    (hc : c.awaits = none ∨ c.awaits = (s.call t).awaits)
    (hledger : Ledger (fun _ : Unit => s'.waitList) (inHands Call.held (Function.update s.call t c))
      s'.arrived s'.released)
    (hplace : ∀ p, s'.released p < s'.arrived p → s'.co p = .suspended ∨ s'.co p = .arriving)
    (hawaits : ∀ u p, (s'.call u).awaits = some p → (s.call u).awaits = some p →
      s'.co p = s.co p ∧ s'.arrived p = s.arrived p ∧ s'.released p = s.released p) :
    Arrivals s' where
  ledger := by rw [s'.holds_eq, hcall]; exact hledger
  place := hplace
  awaits u q h := by
    have h' := awaits_sub hcall hc h
    obtain ⟨h₁, h₂, h₃⟩ := hawaits u q h h'
    rw [h₁, h₂, h₃]
    exact ha.awaits u q h'
  unique u v q hu hv := ha.unique u v q (awaits_sub hcall hc hu) (awaits_sub hcall hc hv)

omit [Fintype P] in
theorem stay (ha : Arrivals s) (hcall : s'.call = Function.update s.call t c)
    (hc : c.awaits = none ∨ c.awaits = (s.call t).awaits)
    (hledger : Ledger (fun _ : Unit => s'.waitList) (inHands Call.held (Function.update s.call t c))
      s.arrived s.released)
    (hco : s'.co = s.co) (harrived : s'.arrived = s.arrived)
    (hreleased : s'.released = s.released) : Arrivals s' := by
  refine ha.of_ledger hcall hc (by rw [harrived, hreleased]; exact hledger) (fun q hq => ?_)
    fun u q _ _ => ⟨by rw [hco], by rw [harrived], by rw [hreleased]⟩
  rw [harrived, hreleased] at hq
  rw [hco]
  exact ha.place q hq

omit [Fintype P] in
theorem ne_of_awaits (ha : Arrivals s) (hcall : s'.call = Function.update s.call t c)
    (hc : c.awaits = none) (hp : (s.call t).awaits = some p) {u : Thread} {q : P}
    (h : (s'.call u).awaits = some q) (h' : (s.call u).awaits = some q) : q ≠ p := by
  rintro rfl
  obtain rfl := ha.unique u t q h' hp
  rw [hcall, Function.update_self, hc] at h
  cases h

omit [DecidableEq Thread] [Fintype P] in
theorem ne_of_inside (ha : Arrivals s) (hp : s.released p < s.arrived p) {u : Thread} {q : P}
    (h : (s.call u).awaits = some q) : q ≠ p := by
  rintro rfl
  have := (ha.awaits u q h).2
  omega

omit [DecidableEq Thread] [Fintype P] in
theorem inside_of_held (ha : Arrivals s) {x : Hand} (h : (s.call t).held x = some p) :
    s.released p < s.arrived p := by
  have := ha.ledger.inside p ⟨.inr (t, x), h⟩
  omega

omit [DecidableEq Thread] [Fintype P] in
theorem inside_of_mem (ha : Arrivals s) (h : p ∈ s.waitList) : s.released p < s.arrived p := by
  have := ha.ledger.inside p ⟨.inl (), h⟩
  omega

end Arrivals

/-- The steps of a call that do not go by the state of the round. -/
def Call.plain : Call P → Bool
  | .idle | .ready _ | .readyIsCanceled _ | .readyRelease _ | .suspend _ | .suspendIsCanceled _ _
  | .loadCount _ _ | .assertCount _ | .cancelIsCanceled | .cancelMark => true
  | _ => false

omit [DecidableEq Thread] [Fintype P] in
theorem Call.fits_of_plain (h : c.plain = true) : c.Fits s := by
  cases c with
  | idle | ready | readyIsCanceled | readyRelease | suspend | suspendIsCanceled | loadCount
  | assertCount | cancelIsCanceled | cancelMark =>
      exact ⟨nofun, nofun, nofun, nofun, nofun, fun _ => rfl⟩
  | _ => cases h

omit [DecidableEq Thread] [Fintype P] in
theorem Call.Fits.congr (h : c.Fits s) (hcapacity : s'.capacity = s.capacity)
    (hcount : s'.count = s.count) (hcanceled : s'.canceled = s.canceled)
    (hdrained : s'.drained = s.drained) : c.Fits s' where
  localCount_lt count hc := hcapacity ▸ h.localCount_lt count hc
  alive := h.alive
  last hl := by
    rw [hcapacity] at hl ⊢
    rw [hcount]
    exact h.last hl
  drains hd := hcanceled ▸ h.drains hd
  node p hp := hdrained ▸ h.node p hp
  drained hd := h.drained (hdrained ▸ hd)

omit [Fintype P] in
theorem Calls.stay (h : Calls s) (hcall : s'.call = Function.update s.call t c)
    (hcapacity : s'.capacity = s.capacity) (hcount : s'.count = s.count)
    (hcanceled : s'.canceled = s.canceled) (hdrained : s'.drained = s.drained) (hc : c.Fits s) :
    Calls s' where
  count_lt p := by
    rw [hcount, hcapacity]
    exact h.count_lt p
  drained hd := by
    rw [hdrained] at hd
    rw [hcanceled]
    exact h.drained hd
  fits u := by
    apply Call.Fits.congr _ hcapacity hcount hcanceled hdrained
    rw [hcall]
    by_cases hu : u = t
    · subst hu
      rwa [Function.update_self]
    · rw [Function.update_of_ne hu]
      exact h.fits u

section Roles

variable {releaser : Releaser P} {left : ℕ} {node : Option P}

omit [DecidableEq Thread] [Fintype P] in
theorem Releaser.queued_or_held (releaser : Releaser P) :
    releaser.queued = some releaser.participant ∨ releaser.held = some releaser.participant := by
  cases releaser with
  | ready p => exact .inr rfl
  | suspend p mustSuspend skipped => cases skipped <;> simp [queued, held, participant]

omit [DecidableEq Thread] [Fintype P] in
theorem Call.held_of_storing (h : c.role = .storing releaser) : c.held .own = releaser.held := by
  cases c <;> cases h
  rfl

omit [DecidableEq Thread] [Fintype P] in
theorem Call.held_of_releasing (h : c.role = .releasing releaser left node) :
    c.held .own = releaser.held ∧ c.held .node = node := by
  cases c <;> cases h <;> exact ⟨rfl, rfl⟩

end Roles

end Changes

end LevelzAsync.AsyncBarrier
