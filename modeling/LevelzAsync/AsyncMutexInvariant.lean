import LevelzAsync.AsyncMutex
import Mathlib.Algebra.Order.BigOperators.Group.Finset

/-!
# Custody of the waiters of an asynchronous mutex

A waiting coroutine is in the wait list once or in the hands of one thread; a
coroutine that unlocks is served by one thread. These two tallies determine who
may change the owner word. A mutex without an owner whose wait list is not empty
has a thread that looks at the list again before its call returns.
-/

namespace LevelzAsync.AsyncMutex

variable {Thread Co : Type*}

/-- Removed from the wait list and not scheduled yet. -/
def Caller.held : Caller Co → List Co
  | .remove c true => [c]
  | _ => []

def Caller.unlocks : Caller Co → List Co
  | .unlock c => [c]
  | _ => []

def Caller.removes : Caller Co → List Co
  | .remove c _ => [c]
  | _ => []

def Drain.unlocks : Drain Co → List Co
  | .owned c | .released c => [c]
  | .cancel => []

namespace Call

/-- The waiting coroutines that the call has in its hands. -/
def held : Call Co → List Co
  | lockLoad next caller | lockEnqueue next caller | lockCas next caller
  | lockSchedule next caller => next :: caller.held
  | lockReload caller | lockDequeue caller => caller.held
  | handOff _ next | handSchedule _ next | drainMark _ next | drainSchedule _ next => [next]
  | removeEnqueue _ node _ => [node]
  | removeCheckOwner c true | removeDequeueNext c true | removeSchedule c => [c]
  | _ => []

def unlocks : Call Co → List Co
  | lockLoad _ caller | lockEnqueue _ caller | lockReload caller | lockDequeue caller
  | lockCas _ caller | lockSchedule _ caller => caller.unlocks
  | unlockLoad c | unlockStranger c | unlockMarkStranger c | unlockCancelled c | unlockMark c
  | unlockRelease c | unlockDequeue c | unlockClear c | unlockDequeueAgain c | handOff c _
  | handSchedule c _ => [c]
  | drainDequeue drain | drainMark drain _ | drainSchedule drain _ => drain.unlocks
  | _ => []

/-- The coroutine that is the owner as long as the call stands there. -/
def owns : Call Co → Option Co
  | lockSchedule next _ | handSchedule _ next => some next
  | unlockCancelled c | unlockMark c | unlockRelease c | unlockDequeue c | unlockClear c
  | handOff c _ | drainDequeue (.owned c) | drainMark (.owned c) _
  | drainSchedule (.owned c) _ => some c
  | _ => none

/-- The coroutine that was found not to be the owner. -/
def strange : Call Co → Option Co
  | unlockStranger c | unlockMarkStranger c => some c
  | _ => none

def marked : Call Co → List Co
  | lockLoad _ caller | lockEnqueue _ caller | lockReload caller | lockDequeue caller
  | lockCas _ caller | lockSchedule _ caller => caller.removes
  | drainSchedule _ next => [next]
  | removeCount c | removeDequeue c _ | removeEnqueue c _ _ | removeCheckOwner c _
  | removeDequeueNext c _ | removeSchedule c => [c]
  | _ => []

/-- The call looks at the wait list, or finds an owner, before it returns. -/
def responsible : Call Co → Bool
  | lockLoad _ _ | lockEnqueue _ _ | lockReload _ | lockDequeue _ | lockCas _ _
  | unlockDequeueAgain _ | drainDequeue (.released _) | drainMark (.released _) _
  | drainSchedule (.released _) _ | removeDequeue _ _ | removeEnqueue _ _ _
  | removeCheckOwner _ _ | removeDequeueNext _ _ => true
  | _ => false

@[simp] theorem held_idle : (idle : Call Co).held = [] := rfl

@[simp] theorem unlocks_idle : (idle : Call Co).unlocks = [] := rfl

theorem owns_cases {p : Call Co} {c : Co} (h : p.owns = some c) :
    c ∈ p.held ∨ c ∈ p.unlocks := by
  cases p with
  | drainDequeue drain | drainMark drain | drainSchedule drain =>
      cases drain <;> simp_all [owns, unlocks, Drain.unlocks]
  | _ => simp_all [owns, held, unlocks]

theorem mem_unlocks_of_strange {p : Call Co} {c : Co} (h : p.strange = some c) :
    c ∈ p.unlocks := by
  cases p <;> simp_all [strange, unlocks]

end Call

/-- What makes a coroutine that is not the owner throw in `await_resume`. -/
def Flagged (s : State Thread Co) (c : Co) : Prop :=
  match s.co c with
  | .suspendStatus isCancelled => isCancelled = true → s.coCancelled c = true
  | .resumeCancelled | .resumeMutex =>
      s.coCancelled c = true ∨ s.coAbandoned c = true ∨ s.cancelled = true
  | .onResumeShutdown | .onResumeAbandoned => s.coCancelled c = true ∨ s.coAbandoned c = true
  | .onResumeCancelled => s.coCancelled c = true
  | .holding => False
  | _ => True

theorem Flagged.mono {s s' : State Thread Co} {c : Co} (h : Flagged s c) (hco : s'.co c = s.co c)
    (hcancelled : s.coCancelled c = true → s'.coCancelled c = true)
    (habandoned : s.coAbandoned c = true → s'.coAbandoned c = true)
    (hmutex : s.cancelled = true → s'.cancelled = true) : Flagged s' c := by
  rw [Flagged, hco]
  rw [Flagged] at h
  cases hp : s.co c <;> simp only [hp] at h ⊢
  · exact fun hc => hcancelled (h hc)
  · exact h.imp hcancelled (Or.imp habandoned hmutex)
  · exact h.imp hcancelled (Or.imp habandoned hmutex)
  · exact h.imp hcancelled habandoned
  · exact h.imp hcancelled habandoned
  · exact hcancelled h

/-- What one step does to a coroutine other than the one that takes it. -/
inductive CoMoves (s s' : State Thread Co) (c : Co) : Prop
  | same : s'.co c = s.co c → s'.schedules c = s.schedules c → CoMoves s s' c
  | scheduled : s.co c = .waiting → s'.co c = .resumeCancelled →
      s'.schedules c = s.schedules c + 1 → s'.owner = some c ∨ s'.coCancelled c = true →
      CoMoves s s' c
  | unlocked : s.co c = .unlocking → s'.co c = .outside → s'.schedules c = s.schedules c →
      CoMoves s s' c

variable [DecidableEq Thread] [DecidableEq Co]

def State.waits (s : State Thread Co) (c : Co) : ℕ := if s.co c = .waiting then 1 else 0

def State.unlocks (s : State Thread Co) (c : Co) : ℕ := if s.co c = .unlocking then 1 else 0

/-- The owner word changes from null to a waiter in hand, or by its owner's
`unlock` to null or to a waiter in hand. -/
inductive OwnerMoves (s s' : State Thread Co) (p p' : Call Co) : Prop
  | same : s'.owner = s.owner → OwnerMoves s s' p p'
  | take {d : Co} : s.owner = none → d ∈ p.held → s'.owner = some d → OwnerMoves s s' p p'
  | leave {u : Co} : p.owns = some u → u ∈ p.unlocks → s'.owner = none → OwnerMoves s s' p p'
  | pass {u d : Co} : p.owns = some u → u ∈ p.unlocks → d ∈ p.held → s'.owner = some d →
      OwnerMoves s s' p p'

/-- What one step of a call changes. -/
structure CallMoves (s s' : State Thread Co) (t : Thread) (p : Call Co) : Prop where
  call : s'.call = Function.update s.call t p
  custody : ∀ c, s'.waitList.count c + p.held.count c + s.waits c =
    s.waitList.count c + (s.call t).held.count c + s'.waits c
  unlocks : ∀ c, p.unlocks.count c + s.unlocks c = (s.call t).unlocks.count c + s'.unlocks c
  owner : OwnerMoves s s' (s.call t) p
  owns : ∀ c, p.owns = some c → s'.owner = some c
  strange : ∀ c, p.strange = some c → s'.owner ≠ some c
  marked : ∀ c ∈ p.marked, s'.coCancelled c = true
  co : ∀ c, CoMoves s s' c
  asked : s'.asked = s.asked
  coCancelled : ∀ c, s.coCancelled c = true → s'.coCancelled c = true
  coAbandoned : s'.coAbandoned = s.coAbandoned
  cancelled : s.cancelled = true → s'.cancelled = true
  responsible : s'.owner = none → s'.waitList ≠ [] → p.responsible = true ∨
    s.owner = none ∧ s.waitList ≠ [] ∧ (s.call t).responsible = false

section Calls

variable {s s' : State Thread Co} {t : Thread} {p q : Call Co}

theorem CallMoves.go (hp : s.call t = q) (hheld : p.held = q.held)
    (hunlocks : p.unlocks = q.unlocks)
    (howns : ∀ c, p.owns = some c → s.owner = some c)
    (hstrange : ∀ c, p.strange = some c → s.owner ≠ some c)
    (hmarked : ∀ c ∈ p.marked, s.coCancelled c = true)
    (hresponsible : s.owner = none → s.waitList ≠ [] → p.responsible = true ∨
      q.responsible = false) : CallMoves s (s.goCall t p) t p := by
  subst hp
  exact
    { call := rfl
      custody := fun c => by rw [hheld]; rfl
      unlocks := fun c => by rw [hunlocks]; rfl
      owner := .same rfl
      owns := howns
      strange := hstrange
      marked := hmarked
      co := fun _ => .same rfl rfl
      asked := rfl
      coCancelled := fun _ => id
      coAbandoned := rfl
      cancelled := id
      responsible := fun hn hw => (hresponsible hn hw).imp_right fun h => ⟨hn, hw, h⟩ }

theorem CallMoves.push {next : Co} (hp : s.call t = q) (hheld : q.held = next :: p.held)
    (hunlocks : p.unlocks = q.unlocks) (howns : p.owns = none) (hstrange : p.strange = none)
    (hmarked : ∀ c ∈ p.marked, s.coCancelled c = true) (hresponsible : p.responsible = true) :
    CallMoves s { s.goCall t p with waitList := s.waitList ++ [next] } t p := by
  subst hp
  exact
    { call := rfl
      custody := fun c => by
        change (s.waitList ++ [next]).count c + p.held.count c + s.waits c = _ + _ + s.waits c
        rw [hheld, List.count_append, List.count_cons, List.count_cons, List.count_nil]
        omega
      unlocks := fun c => by rw [hunlocks]; rfl
      owner := .same rfl
      owns := fun c h => by simp [howns] at h
      strange := fun c h => by simp [hstrange] at h
      marked := hmarked
      co := fun _ => .same rfl rfl
      asked := rfl
      coCancelled := fun _ => id
      coAbandoned := rfl
      cancelled := id
      responsible := fun _ _ => .inl hresponsible }

theorem CallMoves.pop {next : Co} {rest : List Co} (hp : s.call t = q)
    (hlist : s.waitList = next :: rest) (hheld : p.held = next :: q.held)
    (hunlocks : p.unlocks = q.unlocks)
    (howns : ∀ c, p.owns = some c → s.owner = some c) (hstrange : p.strange = none)
    (hmarked : ∀ c ∈ p.marked, s.coCancelled c = true)
    (hresponsible : s.owner = none → p.responsible = true ∨ q.responsible = false) :
    CallMoves s { s.goCall t p with waitList := rest } t p := by
  subst hp
  exact
    { call := rfl
      custody := fun c => by
        change rest.count c + p.held.count c + s.waits c = _ + _ + s.waits c
        rw [hheld, hlist, List.count_cons, List.count_cons]
        omega
      unlocks := fun c => by rw [hunlocks]; rfl
      owner := .same rfl
      owns := howns
      strange := fun c h => by simp [hstrange] at h
      marked := hmarked
      co := fun _ => .same rfl rfl
      asked := rfl
      coCancelled := fun _ => id
      coAbandoned := rfl
      cancelled := id
      responsible := fun hn _ => (hresponsible hn).imp_right fun h => ⟨hn, by simp [hlist], h⟩ }

theorem CallMoves.setOwner {owner : Option Co} (hp : s.call t = q) (howner : OwnerMoves s
      { s.goCall t p with owner := owner } q p)
    (hheld : p.held = q.held) (hunlocks : p.unlocks = q.unlocks)
    (howns : ∀ c, p.owns = some c → owner = some c) (hstrange : p.strange = none)
    (hmarked : ∀ c ∈ p.marked, s.coCancelled c = true)
    (hresponsible : owner = none → p.responsible = true) :
    CallMoves s { s.goCall t p with owner := owner } t p := by
  subst hp
  exact
    { call := rfl
      custody := fun c => by rw [hheld]; rfl
      unlocks := fun c => by rw [hunlocks]; rfl
      owner := howner
      owns := howns
      strange := fun c h => by simp [hstrange] at h
      marked := hmarked
      co := fun _ => .same rfl rfl
      asked := rfl
      coCancelled := fun _ => id
      coAbandoned := rfl
      cancelled := id
      responsible := fun hn _ => .inl (hresponsible hn) }

theorem CallMoves.out {c : Co} (hp : s.call t = q) (hco : s.co c = .unlocking) (hheld : q.held = [])
    (hunlocks : q.unlocks = [c])
    (hresponsible : s.owner = none → s.waitList ≠ [] → q.responsible = false) :
    CallMoves s ((s.goCall t .idle).goCo c .outside) t .idle := by
  subst hp
  exact
    { call := rfl
      custody := fun c' => by
        by_cases hc : c' = c
        · subst hc
          simp [State.waits, State.goCo, State.goCall, hheld, hco]
        · simp [State.waits, State.goCo, State.goCall, hheld, Function.update_of_ne hc]
      unlocks := fun c' => by
        by_cases hc : c' = c
        · subst hc
          simp [State.unlocks, State.goCo, State.goCall, hunlocks, hco]
        · simp [State.unlocks, State.goCo, State.goCall, hunlocks,
            Function.update_of_ne hc, Ne.symm hc]
      owner := .same rfl
      owns := fun c h => by simp [Call.owns] at h
      strange := fun c h => by simp [Call.strange] at h
      marked := fun c h => by simp [Call.marked] at h
      co := fun c' => by
        by_cases hc : c' = c
        · subst hc
          exact .unlocked hco (Function.update_self ..) rfl
        · exact .same (Function.update_of_ne hc ..) rfl
      asked := rfl
      coCancelled := fun _ => id
      coAbandoned := rfl
      cancelled := id
      responsible := fun hn hw => .inr ⟨hn, hw, hresponsible hn hw⟩ }

theorem CallMoves.schedule {next : Co} (hp : s.call t = q) (hnext : s.co next = .waiting)
    (hflag : s.owner = some next ∨ s.coCancelled next = true)
    (hheld : ∀ c, q.held.count c = (next :: p.held).count c)
    (hunlocks : p.unlocks = q.unlocks)
    (howns : ∀ c, p.owns = some c → s.owner = some c) (hstrange : p.strange = none)
    (hmarked : ∀ c ∈ p.marked, s.coCancelled c = true)
    (hresponsible : s.owner = none → s.waitList ≠ [] → p.responsible = true ∨
      q.responsible = false) :
    CallMoves s ((s.schedule next).goCall t p) t p := by
  subst hp
  exact
    { call := rfl
      custody := fun c => by
        rw [hheld c, List.count_cons]
        by_cases hc : c = next
        · subst hc
          simp [State.waits, State.schedule, State.goCall, hnext]
          omega
        · simp [State.waits, State.schedule, State.goCall, hnext, Function.update_of_ne hc,
            Ne.symm hc]
      unlocks := fun c => by
        rw [hunlocks]
        by_cases hc : c = next
        · subst hc
          simp [State.unlocks, State.schedule, State.goCall, hnext]
        · simp [State.unlocks, State.schedule, State.goCall, hnext, Function.update_of_ne hc]
      owner := .same rfl
      owns := howns
      strange := fun c h => by simp [hstrange] at h
      marked := hmarked
      co := fun c => by
        by_cases hc : c = next
        · subst hc
          refine .scheduled hnext ?_ (Function.update_self ..) hflag
          simp [State.schedule, State.goCall, hnext]
        · refine .same ?_ (Function.update_of_ne hc ..)
          simp [State.schedule, State.goCall, hnext, Function.update_of_ne hc]
      asked := rfl
      coCancelled := fun _ => id
      coAbandoned := rfl
      cancelled := id
      responsible := fun hn hw => (hresponsible hn hw).imp_right fun h => ⟨hn, hw, h⟩ }

theorem CallMoves.scheduleOut {next c : Co} (hp : s.call t = q) (hnext : s.co next = .waiting)
    (hflag : s.owner = some next ∨ s.coCancelled next = true) (hco : s.co c = .unlocking)
    (hheld : q.held = [next]) (hunlocks : q.unlocks = [c])
    (hresponsible : q.responsible = false) :
    CallMoves s (((s.schedule next).goCall t .idle).goCo c .outside) t .idle := by
  subst hp
  have hne : c ≠ next := by
    rintro rfl
    rw [hnext] at hco
    cases hco
  refine
    { call := rfl
      custody := fun c' => ?_
      unlocks := fun c' => ?_
      owner := .same rfl
      owns := fun c h => by simp [Call.owns] at h
      strange := fun c h => by simp [Call.strange] at h
      marked := fun c h => by simp [Call.marked] at h
      co := fun c' => ?_
      asked := rfl
      coCancelled := fun _ => id
      coAbandoned := rfl
      cancelled := id
      responsible := fun hn hw => .inr ⟨hn, hw, hresponsible⟩ } <;>
    by_cases hc : c' = c <;> by_cases hd : c' = next
  · exact absurd (hc.symm.trans hd) hne
  · subst hc
    simp [State.waits, State.goCo, State.goCall, State.schedule, hheld, hco, Ne.symm hd]
  · subst hd
    simp [State.waits, State.goCo, State.goCall, State.schedule, hheld, hnext,
      Function.update_of_ne hc]
  · simp [State.waits, State.goCo, State.goCall, State.schedule, hheld, hnext,
      Function.update_of_ne hc, Function.update_of_ne hd, Ne.symm hd]
  · exact absurd (hc.symm.trans hd) hne
  · subst hc
    simp [State.unlocks, State.goCo, State.goCall, hunlocks, hco]
  · subst hd
    simp [State.unlocks, State.goCo, State.goCall, State.schedule, hunlocks, hnext,
      Function.update_of_ne hc, Ne.symm hc]
  · simp [State.unlocks, State.goCo, State.goCall, State.schedule, hunlocks, hnext,
      Function.update_of_ne hc, Function.update_of_ne hd, Ne.symm hc]
  · exact absurd (hc.symm.trans hd) hne
  · subst hc
    exact .unlocked hco (Function.update_self ..) (Function.update_of_ne hd ..)
  · subst hd
    refine .scheduled hnext ?_ (Function.update_self ..) hflag
    simp [State.goCo, State.goCall, State.schedule, hnext, Function.update_of_ne hc]
  · refine .same ?_ (Function.update_of_ne hd ..)
    simp [State.goCo, State.goCall, State.schedule, hnext, Function.update_of_ne hc,
      Function.update_of_ne hd]

omit [DecidableEq Thread] in
theorem State.mark_coCancelled {c d : Co} (h : s.coCancelled c = true) :
    (s.mark d).coCancelled c = true := by
  by_cases hc : c = d
  · subst hc
    simp [State.mark]
  · simp [State.mark, Function.update_of_ne hc, h]

/-- A step may set flags before anything else. -/
theorem CallMoves.of_flags {f : Co → Bool} {b : Bool}
    (hm : CallMoves { s with coCancelled := f, cancelled := b } s' t p)
    (hf : ∀ c, s.coCancelled c = true → f c = true) (hb : s.cancelled = true → b = true) :
    CallMoves s s' t p where
  call := hm.call
  custody := hm.custody
  unlocks := hm.unlocks
  owner := by
    cases hm.owner with
    | same he => exact .same he
    | take hn hd he => exact .take hn hd he
    | leave hu hmem he => exact .leave hu hmem he
    | pass hu hmem hd he => exact .pass hu hmem hd he
  owns := hm.owns
  strange := hm.strange
  marked := hm.marked
  co := fun c => by
    cases hm.co c with
    | same hco hs => exact .same hco hs
    | scheduled hw hco hs hflag => exact .scheduled hw hco hs hflag
    | unlocked hu hco hs => exact .unlocked hu hco hs
  asked := hm.asked
  coCancelled := fun c h => hm.coCancelled c (hf c h)
  coAbandoned := hm.coAbandoned
  cancelled := fun h => hm.cancelled (hb h)
  responsible := hm.responsible

theorem CallMoves.of_mark {c : Co} (hm : CallMoves (s.mark c) s' t p) : CallMoves s s' t p :=
  hm.of_flags (fun _ => State.mark_coCancelled) id

end Calls

structure Inv [Fintype Thread] (s : State Thread Co) : Prop where
  custody : ∀ c, s.waitList.count c + ∑ t, (s.call t).held.count c = s.waits c
  unlocks : ∀ c, ∑ t, (s.call t).unlocks.count c = s.unlocks c
  owns : ∀ t c, (s.call t).owns = some c → s.owner = some c
  strange : ∀ t c, (s.call t).strange = some c → s.owner ≠ some c
  marked : ∀ t, ∀ c ∈ (s.call t).marked, s.coCancelled c = true
  flagged : ∀ c, s.owner ≠ some c → Flagged s c
  schedules : ∀ c, s.schedules c = if s.asked c = true ∧ s.co c ≠ .waiting then 1 else 0
  asked : ∀ c, s.co c = .waiting → s.asked c = true
  responsible : s.owner = none → s.waitList ≠ [] → ∃ t, (s.call t).responsible = true

section Runs

variable [Fintype Thread] {s s' : State Thread Co} {t : Thread} {c : Co}

omit [DecidableEq Thread] in
theorem Inv.waiting_of_held (hi : Inv s) (h : c ∈ (s.call t).held) : s.co c = .waiting := by
  have hpos : 0 < (s.call t).held.count c := List.count_pos_iff.mpr h
  have hle := le_sum_tally s.call (fun p => p.held.count c) t
  have hc := hi.custody c
  by_contra hne
  rw [State.waits, if_neg hne] at hc
  omega

omit [DecidableEq Thread] in
theorem Inv.unlocking_of_mem (hi : Inv s) (h : c ∈ (s.call t).unlocks) :
    s.co c = .unlocking := by
  have hpos : 0 < (s.call t).unlocks.count c := List.count_pos_iff.mpr h
  have hle := le_sum_tally s.call (fun p => p.unlocks.count c) t
  have hc := hi.unlocks c
  by_contra hne
  rw [State.unlocks, if_neg hne] at hc
  omega

/-- One thread at a time serves the `unlock` of a coroutine. -/
theorem Inv.unlocks_unique (hi : Inv s) {t' : Thread} (h : c ∈ (s.call t).unlocks)
    (h' : c ∈ (s.call t').unlocks) : t = t' := by
  by_contra hne
  have hpos : 0 < (s.call t).unlocks.count c := List.count_pos_iff.mpr h
  have hpos' : 0 < (s.call t').unlocks.count c := List.count_pos_iff.mpr h'
  have hle := add_le_sum_tally s.call (fun p => p.unlocks.count c) hne
  have hc := hi.unlocks c
  rw [State.unlocks] at hc
  split at hc <;> omega

/-- While a call unlocks for the owner, no other call relies on that owner. -/
theorem Inv.owns_unique (hi : Inv s) {t' : Thread} (hu : c ∈ (s.call t).unlocks)
    (h' : (s.call t').owns = some c) : t = t' := by
  rcases Call.owns_cases h' with hh | hu'
  · have := hi.waiting_of_held hh
    rw [hi.unlocking_of_mem hu] at this
    cases this
  · exact hi.unlocks_unique hu hu'

theorem Inv.call_step (hi : Inv s) {p : Call Co} (hm : CallMoves s s' t p) : Inv s' := by
  have hself : s'.call t = p := by rw [hm.call, Function.update_self]
  have hother : ∀ t', t' ≠ t → s'.call t' = s.call t' := fun t' ht => by
    rw [hm.call, Function.update_of_ne ht]
  refine
    { custody := fun c => ?_
      unlocks := fun c => ?_
      owns := fun t' c h => ?_
      strange := fun t' c h => ?_
      marked := fun t' c h => ?_
      flagged := fun c h => ?_
      schedules := fun c => ?_
      asked := fun c h => ?_
      responsible := fun hn hw => ?_ }
  · have hsum := sum_update_tally s.call (fun p => p.held.count c) t p
    have hstep := hm.custody c
    have hc := hi.custody c
    rw [hm.call]
    omega
  · have hsum := sum_update_tally s.call (fun p => p.unlocks.count c) t p
    have hstep := hm.unlocks c
    have hc := hi.unlocks c
    rw [hm.call]
    omega
  · by_cases ht : t' = t
    · subst t'
      exact hm.owns c (hself ▸ h)
    · rw [hother t' ht] at h
      have hold := hi.owns t' c h
      cases hm.owner with
      | same he => rw [he, hold]
      | take hn _ _ =>
          rw [hn] at hold
          cases hold
      | leave hu hmem _ | pass hu hmem _ _ =>
          have he := (hi.owns t _ hu).symm.trans hold
          cases he
          exact absurd (hi.owns_unique hmem h).symm ht
  · by_cases ht : t' = t
    · subst t'
      exact hm.strange c (hself ▸ h)
    · rw [hother t' ht] at h
      have hold := hi.strange t' c h
      have hunl := hi.unlocking_of_mem (Call.mem_unlocks_of_strange h)
      have hne : ∀ d ∈ (s.call t).held, d ≠ c := by
        rintro d hd rfl
        rw [hi.waiting_of_held hd] at hunl
        cases hunl
      cases hm.owner with
      | same he => rwa [he]
      | take _ hd he | pass _ _ hd he =>
          rw [he, Ne, Option.some.injEq]
          exact hne _ hd
      | leave _ _ he =>
          rw [he]
          exact Option.some_ne_none c |>.symm
  · by_cases ht : t' = t
    · subst t'
      exact hm.marked c (hself ▸ h)
    · rw [hother t' ht] at h
      exact hm.coCancelled c (hi.marked t' c h)
  · cases hm.co c with
    | same hco _ =>
        by_cases hold : s.owner = some c
        · have hunl : s.co c = .unlocking := by
            cases hm.owner with
            | same he => exact absurd (he.trans hold) h
            | take hn _ _ =>
                rw [hn] at hold
                cases hold
            | leave hu hmem _ | pass hu hmem _ _ =>
                have he := (hi.owns t _ hu).symm.trans hold
                cases he
                exact hi.unlocking_of_mem hmem
          rw [Flagged, hco, hunl]
          trivial
        · exact (hi.flagged c hold).mono hco (hm.coCancelled c) (fun h => by rw [hm.coAbandoned, h])
            hm.cancelled
    | scheduled _ hco _ hflag =>
        rw [Flagged, hco]
        exact .inl (hflag.resolve_left h)
    | unlocked _ hco _ =>
        rw [Flagged, hco]
        trivial
  · have hold := hi.schedules c
    rw [hm.asked]
    cases hm.co c with
    | same hco hs => rw [hs, hco, hold]
    | scheduled hw hco hs _ => simp [hs, hco, hold, hw, hi.asked c hw]
    | unlocked hu hco hs => simp [hs, hco, hold, hu]
  · rw [hm.asked]
    cases hm.co c with
    | same hco _ => exact hi.asked c (hco ▸ h)
    | scheduled _ hco _ _ | unlocked _ hco _ =>
        rw [hco] at h
        cases h
  · rcases hm.responsible hn hw with hr | ⟨ho, hl, hr⟩
    · exact ⟨t, hself ▸ hr⟩
    · obtain ⟨t', ht'⟩ := hi.responsible ho hl
      have hne : t' ≠ t := by
        rintro rfl
        rw [hr] at ht'
        cases ht'
      exact ⟨t', by rw [hother t' hne, ht']⟩

end Runs

end LevelzAsync.AsyncMutex
