import LevelzAsync.AsyncMutexSafety

/-!
# The order in which an asynchronous mutex serves its waiters

The line holds the waiters in the order in which their own calls of `lock` put them in the
wait list. A waiter that loses the race for a freed mutex is put back at the end of the
wait list, and so is each one that `remove` has looked at, so the list need not stand in
that order. It does as far as nobody was put back.
-/

namespace LevelzAsync.AsyncMutex

variable {Thread Co : Type*}

namespace Call

/-- The waiter in the hand of the call, before it is made the owner or put back. -/
def hand : Call Co → Option Co
  | lockLoad next _ | lockEnqueue next _ | lockCas next _ | handOff _ next
  | removeEnqueue _ next _ => some next
  | _ => none

/-- The waiter that the call is going to make the owner, unless another one comes first. -/
def offered : Call Co → Option Co
  | lockLoad next _ | lockCas next _ | handOff _ next => some next
  | _ => none

theorem mem_held_of_hand {p : Call Co} {c : Co} (h : p.hand = some c) : c ∈ p.held := by
  cases p <;> simp_all [hand, held]

theorem hand_of_offered {p : Call Co} {c : Co} (h : p.offered = some c) : p.hand = some c := by
  cases p <;> simp_all [hand, offered]

end Call

/-- The waiter that the next step of the thread takes out of the list to make it the owner. -/
def State.takes (s : State Thread Co) (t : Thread) : Option Co :=
  match s.call t with
  | .lockDequeue _ | .unlockDequeue _ | .unlockDequeueAgain _ | .removeDequeueNext _ _ =>
      s.waitList.head?
  | _ => none

structure Lined (Thread Co : Type*) where
  mutex : State Thread Co
  /-- Who waits for the mutex, in the order of the own calls of `lock`. -/
  line : List Co
  /-- Taken out of the list and put back since the own call of `lock`. -/
  putBack : Co → Bool

namespace Lined

/-- Listed by its own call of `lock` before the other, with nothing cancelled. -/
def Earlier (s : Lined Thread Co) (d c : Co) : Prop :=
  [d, c].Sublist s.line ∧ s.mutex.coCancelled d = false ∧ s.mutex.coCancelled c = false ∧
    s.mutex.cancelled = false

variable [DecidableEq Co]

/-- A waiter leaves the line when it is made the owner, or is taken out of the list because
it or the mutex is cancelled. -/
def afterCall (s : Lined Thread Co) (spurious : Bool) : Call Co → List Co
  | .lockEnqueue next _ => if next ∈ s.line then s.line else s.line ++ [next]
  | .lockCas next _ =>
      if s.mutex.owner = none ∧ spurious = false then s.line.erase next else s.line
  | .handOff _ next => s.line.erase next
  | .drainDequeue _ =>
      match s.mutex.waitList with
      | next :: _ => s.line.erase next
      | [] => s.line
  | .removeDequeue c (_ + 1) =>
      if s.mutex.waitList.head? = some c then s.line.erase c else s.line
  | _ => s.line

def nextLine (s : Lined Thread Co) : Action Thread Co → List Co
  | .call t spurious _ => s.afterCall spurious (s.mutex.call t)
  | _ => s.line

def nextPutBack (s : Lined Thread Co) : Action Thread Co → Co → Bool
  | .call t _ _ =>
      match s.mutex.call t with
      | .lockEnqueue next _ => Function.update s.putBack next (decide (next ∈ s.line))
      | .removeEnqueue _ node _ => Function.update s.putBack node true
      | _ => s.putBack
  | _ => s.putBack

end Lined

variable [DecidableEq Thread] [DecidableEq Co]

def linedSystem (Thread Co : Type*) [DecidableEq Thread] [DecidableEq Co] :
    StepSystem (Lined Thread Co) (Action Thread Co) where
  start s := ∃ coCancelled coAbandoned, s = ⟨initial coCancelled coAbandoned, [], fun _ => false⟩
  step s a := (step s.mutex a).map fun mutex => ⟨mutex, s.nextLine a, s.nextPutBack a⟩

/-- When a call takes the first waiter out of the list to make it the owner, none listed
before it was put back in the list behind it or is in the hand of a call. -/
def InTurn (s : Lined Thread Co) : Action Thread Co → Prop
  | .call t _ _ => ∀ c, s.mutex.takes t = some c → ∀ d, s.Earlier d c →
      (d ∈ s.mutex.waitList → s.putBack d = false) ∧ ∀ u, (s.mutex.call u).hand ≠ some d
  | _ => True

theorem refines_mutex :
    (linedSystem Thread Co).Refines (system Thread Co) Lined.mutex where
  start := by
    rintro s ⟨coCancelled, coAbandoned, rfl⟩
    exact ⟨coCancelled, coAbandoned, rfl⟩
  step := by
    intro s a s' _ ha
    obtain ⟨mutex, hmutex, rfl⟩ := Option.map_eq_some_iff.mp ha
    exact .inr ⟨a, hmutex⟩

/-- What one step of a call changes for the line. -/
structure LineMoves (s s' : Lined Thread Co) (t : Thread) (p : Call Co) : Prop where
  call : s'.mutex.call = Function.update s.mutex.call t p
  line : s'.line.Sublist s.line ∨ ∃ next, (s.mutex.call t).hand = some next ∧
    p.offered = none ∧ next ∉ s.line ∧ s'.line = s.line ++ [next]
  here : ∀ c ∈ s'.line, c ∈ s.mutex.waitList ∨ (s.mutex.call t).hand = some c →
    c ∈ s'.mutex.waitList ∨ p.hand = some c
  offered : ∀ c, p.offered = some c →
    (s.mutex.call t).offered = some c ∨ s.mutex.takes t = some c
  list : s'.mutex.waitList.Sublist s.mutex.waitList ∧ s'.putBack = s.putBack ∨
    ∃ next b, (s.mutex.call t).hand = some next ∧ (b = true ∨ next ∉ s.line) ∧
      s'.mutex.waitList = s.mutex.waitList ++ [next] ∧
      s'.putBack = Function.update s.putBack next b
  owner : ∀ c, s'.mutex.owner = some c →
    s.mutex.owner = some c ∨ (s.mutex.call t).offered = some c

section Moves

variable {s : Lined Thread Co} {s' : State Thread Co} {t : Thread} {p q : Call Co}

theorem LineMoves.stay (hp : s.mutex.call t = q)
    (hcall : s'.call = Function.update s.mutex.call t p)
    (hlist : s'.waitList = s.mutex.waitList) (hhand : p.hand = q.hand)
    (hoffered : p.offered = none ∨ p.offered = q.offered)
    (howner : s'.owner = s.mutex.owner ∨ s'.owner = none) :
    LineMoves s ⟨s', s.line, s.putBack⟩ t p where
  call := hcall
  line := .inl (List.Sublist.refl _)
  here := fun c _ hc => by rwa [hlist, hhand, ← hp]
  offered := fun c hc => by
    rcases hoffered with hn | he
    · rw [hn] at hc
      cases hc
    · exact .inl (by rw [hp, ← he, hc])
  list := .inl ⟨by rw [hlist], rfl⟩
  owner := fun c hc => by
    change s'.owner = some c at hc
    rcases howner with he | hn
    · exact .inl (by rw [← he, hc])
    · rw [hn] at hc
      cases hc

theorem LineMoves.pop {next : Co} {rest : List Co} (hp : s.mutex.call t = q)
    (hq : q.hand = none) (hcall : s'.call = Function.update s.mutex.call t p)
    (hwait : s.mutex.waitList = next :: rest) (hlist : s'.waitList = rest)
    (hhand : p.hand = some next)
    (hoffered : p.offered = none ∨ s.mutex.takes t = s.mutex.waitList.head?)
    (howner : s'.owner = s.mutex.owner) : LineMoves s ⟨s', s.line, s.putBack⟩ t p where
  call := hcall
  line := .inl (List.Sublist.refl _)
  here := fun c _ hc => by
    rw [hp, hq, hwait, or_iff_left (by simp)] at hc
    rw [hlist, hhand]
    rcases List.mem_cons.mp hc with rfl | hrest
    · exact .inr rfl
    · exact .inl hrest
  offered := fun c hc => by
    rcases hoffered with hn | htakes
    · rw [hn] at hc
      cases hc
    · rw [Call.hand_of_offered hc] at hhand
      exact .inr (by rw [htakes, hwait, List.head?_cons, ← hhand])
  list := .inl ⟨by rw [hlist, hwait]; exact List.sublist_cons_self next rest, rfl⟩
  owner := fun c hc => .inl (by rw [← howner, ← hc])

theorem LineMoves.leave {next : Co} {rest : List Co} (hnodup : s.line.Nodup)
    (hp : s.mutex.call t = q) (hq : q.hand = none)
    (hcall : s'.call = Function.update s.mutex.call t p)
    (hwait : s.mutex.waitList = next :: rest) (hlist : s'.waitList = rest)
    (hoffered : p.offered = none) (howner : s'.owner = s.mutex.owner) :
    LineMoves s ⟨s', s.line.erase next, s.putBack⟩ t p where
  call := hcall
  line := .inl List.erase_sublist
  here := fun c hline hc => by
    rw [hp, hq, hwait, or_iff_left (by simp)] at hc
    obtain ⟨hne, -⟩ := hnodup.mem_erase_iff.mp hline
    rw [hlist]
    exact .inl ((List.mem_cons.mp hc).resolve_left hne)
  offered := fun c hc => by
    rw [hoffered] at hc
    cases hc
  list := .inl ⟨by rw [hlist, hwait]; exact List.sublist_cons_self next rest, rfl⟩
  owner := fun c hc => .inl (by rw [← howner, ← hc])

theorem LineMoves.grant {next : Co} (hnodup : s.line.Nodup) (hp : s.mutex.call t = q)
    (hq : q.offered = some next) (hcall : s'.call = Function.update s.mutex.call t p)
    (hlist : s'.waitList = s.mutex.waitList) (hoffered : p.offered = none)
    (howner : s'.owner = some next) : LineMoves s ⟨s', s.line.erase next, s.putBack⟩ t p where
  call := hcall
  line := .inl List.erase_sublist
  here := fun c hline hc => by
    obtain ⟨hne, -⟩ := hnodup.mem_erase_iff.mp hline
    rw [hp, Call.hand_of_offered hq] at hc
    rw [hlist]
    exact .inl (hc.resolve_right fun he => hne (Option.some.inj he).symm)
  offered := fun c hc => by
    rw [hoffered] at hc
    cases hc
  list := .inl ⟨by rw [hlist], rfl⟩
  owner := fun c hc => .inr (by rw [hp, hq, ← howner, ← hc])

/-- The waiter in hand is put in the list, by its own call of `lock` or back again. -/
theorem LineMoves.push {next : Co} {line : List Co} {b : Bool} (hp : s.mutex.call t = q)
    (hq : q.hand = some next) (hcall : s'.call = Function.update s.mutex.call t p)
    (hlist : s'.waitList = s.mutex.waitList ++ [next])
    (hline : line = s.line ∧ b = true ∨ next ∉ s.line ∧ line = s.line ++ [next])
    (hoffered : p.offered = none) (howner : s'.owner = s.mutex.owner) :
    LineMoves s ⟨s', line, Function.update s.putBack next b⟩ t p where
  call := hcall
  line := by
    rcases hline with ⟨rfl, -⟩ | ⟨hmem, hline⟩
    · exact .inl (List.Sublist.refl _)
    · exact .inr ⟨next, by rw [hp, hq], hoffered, hmem, hline⟩
  here := fun c _ hc => by
    left
    rw [hlist, List.mem_append, List.mem_singleton]
    rw [hp, hq] at hc
    exact hc.imp_right fun he => (Option.some.inj he).symm
  offered := fun c hc => by
    rw [hoffered] at hc
    cases hc
  list := .inr ⟨next, b, by rw [hp, hq], hline.imp And.right And.left, hlist, rfl⟩
  owner := fun c hc => .inl (by rw [← howner, ← hc])

theorem Caller.returns (caller : Caller Co) (t : Thread) (s : State Thread Co) :
    ∃ p : Call Co, p.hand = none ∧ p.offered = none ∧
      (s.returnLock t caller).call = Function.update s.call t p ∧
      (s.returnLock t caller).waitList = s.waitList ∧
      (s.returnLock t caller).owner = s.owner := by
  cases caller with
  | awaiter => exact ⟨.idle, rfl, rfl, rfl, rfl, rfl⟩
  | unlock c => exact ⟨.idle, rfl, rfl, rfl, rfl, rfl⟩
  | remove c removed =>
      cases removed with
      | false => exact ⟨.idle, rfl, rfl, rfl, rfl, rfl⟩
      | true => exact ⟨.removeSchedule c, rfl, rfl, rfl, rfl, rfl⟩

theorem lineMoves_of_callStep {spurious : Bool} {bound : ℕ} (hnodup : s.line.Nodup)
    (h : callStep s.mutex t spurious bound (s.mutex.call t) = some s') :
    ∃ p, LineMoves s ⟨s', s.afterCall spurious (s.mutex.call t),
      s.nextPutBack (.call t spurious bound)⟩ t p := by
  unfold Lined.nextPutBack
  dsimp only
  cases hp : s.mutex.call t with
  | idle => simp [hp, callStep] at h
  | lockLoad next caller =>
      rw [hp] at h
      cases h
      by_cases ho : s.mutex.owner = none
      · rw [if_pos ho]
        exact ⟨_, .stay hp rfl rfl rfl (.inr rfl) (.inl rfl)⟩
      · rw [if_neg ho]
        exact ⟨_, .stay hp rfl rfl rfl (.inl rfl) (.inl rfl)⟩
  | lockEnqueue next caller =>
      rw [hp] at h
      cases h
      refine ⟨_, .push hp rfl rfl rfl ?_ rfl rfl⟩
      unfold Lined.afterCall
      dsimp only
      split_ifs with hmem
      · exact .inl ⟨rfl, decide_eq_true hmem⟩
      · exact .inr ⟨hmem, rfl⟩
  | lockReload caller =>
      rw [hp] at h
      cases h
      split
      next => exact ⟨_, .stay hp rfl rfl rfl (.inl rfl) (.inl rfl)⟩
      next =>
        obtain ⟨p, hhand, hoffered, hcall, hlist, howner⟩ := caller.returns t s.mutex
        exact ⟨p, .stay hp hcall hlist hhand (.inl hoffered) (.inl howner)⟩
  | lockDequeue caller =>
      rw [hp] at h
      cases h
      have htakes : s.mutex.takes t = s.mutex.waitList.head? := by rw [State.takes, hp]
      cases hwait : s.mutex.waitList with
      | cons next rest => exact ⟨_, .pop hp rfl rfl hwait rfl rfl (.inr htakes) rfl⟩
      | nil =>
          obtain ⟨p, hhand, hoffered, hcall, hlist, howner⟩ := caller.returns t s.mutex
          exact ⟨p, .stay hp hcall hlist hhand (.inl hoffered) (.inl howner)⟩
  | lockCas next caller =>
      rw [hp] at h
      cases h
      unfold Lined.afterCall
      dsimp only
      by_cases ho : s.mutex.owner = none
      · cases spurious with
        | true =>
            rw [if_pos ho, if_pos rfl, if_neg (by simp)]
            exact ⟨_, .stay hp rfl rfl rfl (.inr rfl) (.inl rfl)⟩
        | false =>
            rw [if_pos ho, if_neg (by simp), if_pos ⟨ho, rfl⟩]
            exact ⟨_, .grant hnodup hp rfl rfl rfl rfl rfl⟩
      · rw [if_neg ho, if_neg fun hc => ho hc.1]
        exact ⟨_, .stay hp rfl rfl rfl (.inl rfl) (.inl rfl)⟩
  | lockSchedule next caller =>
      rw [hp] at h
      cases h
      obtain ⟨p, hhand, hoffered, hcall, hlist, howner⟩ := caller.returns t (s.mutex.schedule next)
      exact ⟨p, .stay hp hcall hlist hhand (.inl hoffered) (.inl howner)⟩
  | unlockDequeue c =>
      rw [hp] at h
      cases h
      have htakes : s.mutex.takes t = s.mutex.waitList.head? := by rw [State.takes, hp]
      cases hwait : s.mutex.waitList with
      | cons next rest => exact ⟨_, .pop hp rfl rfl hwait rfl rfl (.inr htakes) rfl⟩
      | nil => exact ⟨_, .stay hp rfl rfl rfl (.inl rfl) (.inl rfl)⟩
  | unlockDequeueAgain c =>
      rw [hp] at h
      cases h
      have htakes : s.mutex.takes t = s.mutex.waitList.head? := by rw [State.takes, hp]
      cases hwait : s.mutex.waitList with
      | cons next rest => exact ⟨_, .pop hp rfl rfl hwait rfl rfl (.inr htakes) rfl⟩
      | nil => exact ⟨_, .stay hp rfl rfl rfl (.inl rfl) (.inl rfl)⟩
  | unlockClear c | unlockRelease c =>
      rw [hp] at h
      cases h
      exact ⟨_, .stay hp rfl rfl rfl (.inl rfl) (.inr rfl)⟩
  | handOff c next =>
      rw [hp] at h
      cases h
      exact ⟨_, .grant hnodup hp rfl rfl rfl rfl rfl⟩
  | drainDequeue drain =>
      rw [hp] at h
      cases h
      unfold Lined.afterCall
      cases hwait : s.mutex.waitList with
      | cons next rest => exact ⟨_, .leave hnodup hp rfl rfl hwait rfl rfl rfl⟩
      | nil => cases drain <;> exact ⟨_, .stay hp rfl rfl rfl (.inl rfl) (.inl rfl)⟩
  | removeDequeue c left =>
      rw [hp] at h
      cases h
      cases left with
      | zero => exact ⟨_, .stay hp rfl rfl rfl (.inl rfl) (.inl rfl)⟩
      | succ left =>
          unfold Lined.afterCall
          cases hwait : s.mutex.waitList with
          | nil => exact ⟨_, .stay hp rfl rfl rfl (.inl rfl) (.inl rfl)⟩
          | cons node rest =>
              dsimp only
              rw [List.head?_cons]
              by_cases hnode : node = c
              · subst hnode
                rw [if_pos rfl, if_pos rfl]
                exact ⟨_, .leave hnodup hp rfl rfl hwait rfl rfl rfl⟩
              · rw [if_neg hnode, if_neg fun he => hnode (Option.some.inj he)]
                exact ⟨_, .pop hp rfl rfl hwait rfl rfl (.inl rfl) rfl⟩
  | removeEnqueue c node left =>
      rw [hp] at h
      cases h
      exact ⟨_, .push hp rfl rfl rfl (.inl ⟨rfl, rfl⟩) rfl rfl⟩
  | removeDequeueNext c removed =>
      rw [hp] at h
      cases h
      have htakes : s.mutex.takes t = s.mutex.waitList.head? := by rw [State.takes, hp]
      cases hwait : s.mutex.waitList with
      | cons next rest => exact ⟨_, .pop hp rfl rfl hwait rfl rfl (.inr htakes) rfl⟩
      | nil => cases removed <;> exact ⟨_, .stay hp rfl rfl rfl (.inl rfl) (.inl rfl)⟩
  | removeCheckOwner c removed =>
      rw [hp] at h
      cases h
      cases removed <;> split <;> exact ⟨_, .stay hp rfl rfl rfl (.inl rfl) (.inl rfl)⟩
  | unlockLoad c | unlockStranger c | unlockCancelled c =>
      rw [hp] at h
      cases h
      split <;> exact ⟨_, .stay hp rfl rfl rfl (.inl rfl) (.inl rfl)⟩
  | _ =>
      rw [hp] at h
      cases h
      exact ⟨_, .stay hp rfl rfl rfl (.inl rfl) (.inl rfl)⟩

end Moves

omit [DecidableEq Thread] [DecidableEq Co] in
theorem State.head_of_takes {m : State Thread Co} {t : Thread} {c : Co}
    (h : m.takes t = some c) : ∃ rest, m.waitList = c :: rest := by
  unfold State.takes at h
  split at h <;> first | exact List.head?_eq_some_iff.mp h | cases h

/-- The line holds waiters only, the list stands in its order but for those who were put
back, and who is offered the mutex is the first of them that nothing cancels. -/
structure InLine (s : Lined Thread Co) : Prop where
  nodup : s.line.Nodup
  here : ∀ c ∈ s.line, c ∈ s.mutex.waitList ∨ ∃ t, (s.mutex.call t).hand = some c
  ordered : s.mutex.waitList.Pairwise fun c d => s.putBack d = false → ¬ s.Earlier d c
  offered : ∀ t c, (s.mutex.call t).offered = some c → ∀ d, ¬ s.Earlier d c

section Steps

variable [Fintype Thread] {s s' : Lined Thread Co} {t u : Thread} {c d : Co} {p : Call Co}
  {spurious : Bool} {bound : ℕ}

omit [DecidableEq Thread] in
theorem Inv.waiting_of_mem {m : State Thread Co} (hi : Inv m) (hc : c ∈ m.waitList) :
    m.co c = .waiting := by
  have hpos : 0 < m.waitList.count c := List.count_pos_iff.mpr hc
  have hcustody := hi.custody c
  by_contra hne
  rw [State.waits, if_neg hne] at hcustody
  omega

theorem Inv.hand_unique {m : State Thread Co} (hi : Inv m) (ht : (m.call t).hand = some c)
    (hu : (m.call u).hand = some c) : t = u := by
  by_contra hne
  have hle := add_le_sum_tally m.call (fun p => p.held.count c) hne
  have hpos : 0 < (m.call t).held.count c := List.count_pos_iff.mpr (Call.mem_held_of_hand ht)
  have hpos' : 0 < (m.call u).held.count c := List.count_pos_iff.mpr (Call.mem_held_of_hand hu)
  have hcustody := hi.custody c
  rw [State.waits] at hcustody
  split at hcustody <;> omega

omit [DecidableEq Thread] in
theorem Inv.not_mem_of_hand {m : State Thread Co} (hi : Inv m) (ht : (m.call t).hand = some c) :
    c ∉ m.waitList := by
  intro hc
  have hle := le_sum_tally m.call (fun p => p.held.count c) t
  have hpos : 0 < (m.call t).held.count c := List.count_pos_iff.mpr (Call.mem_held_of_hand ht)
  have hmem : 0 < m.waitList.count c := List.count_pos_iff.mpr hc
  have hcustody := hi.custody c
  rw [State.waits] at hcustody
  split at hcustody <;> omega

omit [DecidableEq Thread] in
theorem InLine.waiting (h : InLine s) (hi : Inv s.mutex) (hc : c ∈ s.line) :
    s.mutex.co c = .waiting := by
  rcases h.here c hc with hlist | ⟨t, ht⟩
  · exact hi.waiting_of_mem hlist
  · exact hi.waiting_of_held (Call.mem_held_of_hand ht)

omit [DecidableEq Thread] [DecidableEq Co] [Fintype Thread] in
theorem Lined.Earlier.mono (h : s'.Earlier d c) (hline : [d, c].Sublist s.line)
    (hco : ∀ e, s.mutex.coCancelled e = true → s'.mutex.coCancelled e = true)
    (hmutex : s.mutex.cancelled = true → s'.mutex.cancelled = true) : s.Earlier d c := by
  have hflag : ∀ {b b' : Bool}, (b = true → b' = true) → b' = false → b = false := by decide
  exact ⟨hline, hflag (hco d) h.2.1, hflag (hco c) h.2.2.1, hflag hmutex h.2.2.2⟩

omit [DecidableEq Thread] [DecidableEq Co] [Fintype Thread] in
/-- Who comes to the end of the line is behind everybody. -/
theorem sublist_of_concat {line : List Co} {e : Co} (hne : c ≠ e)
    (h : [d, c].Sublist (line ++ [e])) : [d, c].Sublist line := by
  rw [← List.reverse_sublist] at h ⊢
  rw [List.reverse_append] at h
  exact (List.cons_sublist_cons'.mp h).resolve_right fun hc => hne hc.1

theorem InLine.call (h : InLine s) (hi : Inv s.mutex) (hg : InTurn s (.call t spurious bound))
    (ha : (linedSystem Thread Co).step s (.call t spurious bound) = some s') : InLine s' := by
  obtain ⟨mutex, hmutex, rfl⟩ := Option.map_eq_some_iff.mp ha
  obtain ⟨p, hm⟩ := lineMoves_of_callStep h.nodup hmutex
  obtain ⟨_, hflags⟩ := hi.callMoves hmutex
  set line := s.nextLine (.call t spurious bound)
  set putBack := s.nextPutBack (.call t spurious bound)
  have hself : mutex.call t = p := by
    rw [show mutex.call = _ from hm.call, Function.update_self]
  have hother : ∀ u, u ≠ t → mutex.call u = s.mutex.call u := fun u hu => by
    rw [show mutex.call = _ from hm.call, Function.update_of_ne hu]
  have hearlier : ∀ d c, Lined.Earlier ⟨mutex, line, putBack⟩ d c → [d, c].Sublist s.line →
      s.Earlier d c := fun d c he hline =>
    he.mono hline hflags.coCancelled hflags.cancelled
  -- only the waiter in hand can be new in the line
  have hbefore : ∀ d c, Lined.Earlier ⟨mutex, line, putBack⟩ d c →
      (s.mutex.call t).hand ≠ some c → s.Earlier d c := by
    intro d c he hhand
    refine hearlier d c he ?_
    rcases hm.line with hsub | ⟨next, hnext, -, -, hline⟩
    · exact he.1.trans hsub
    · have hne : c ≠ next := by
        rintro rfl
        exact hhand hnext
      apply sublist_of_concat hne
      rw [← hline]
      exact he.1
  refine ⟨?_, fun c hc => ?_, ?_, fun u c hc d he => ?_⟩
  · rcases hm.line with hsub | ⟨next, -, -, hnext, hline⟩
    · exact h.nodup.sublist hsub
    · change line.Nodup
      rw [show line = _ from hline]
      exact h.nodup.append (List.nodup_singleton next) (by simpa using hnext)
  · have hold : c ∈ s.mutex.waitList ∨ ∃ u, (s.mutex.call u).hand = some c := by
      rcases hm.line with hsub | ⟨next, hhand, -, -, hline⟩
      · exact h.here c (hsub.subset hc)
      · change c ∈ line at hc
        rw [show line = _ from hline] at hc
        rcases List.mem_append.mp hc with hc | hc
        · exact h.here c hc
        · exact .inr ⟨t, by rw [List.mem_singleton.mp hc, hhand]⟩
    have hmine : c ∈ s.mutex.waitList ∨ (s.mutex.call t).hand = some c →
        c ∈ mutex.waitList ∨ ∃ u, (mutex.call u).hand = some c := fun hold =>
      (hm.here c hc hold).imp_right fun hp => ⟨t, by rw [hself, hp]⟩
    rcases hold with hlist | ⟨u, hu⟩
    · exact hmine (.inl hlist)
    · by_cases hut : u = t
      · subst hut
        exact hmine (.inr hu)
      · exact .inr ⟨u, by rw [hother u hut, hu]⟩
  · have hfree : ∀ c ∈ s.mutex.waitList, (s.mutex.call t).hand ≠ some c := fun c hc hhand =>
      hi.not_mem_of_hand hhand hc
    change mutex.waitList.Pairwise fun c d =>
      putBack d = false → ¬ Lined.Earlier ⟨mutex, line, putBack⟩ d c
    rcases hm.list with ⟨hsub, hback⟩ | ⟨next, b, hhand, hb, hlist, hback⟩
    · refine (h.ordered.sublist hsub).imp_of_mem fun hc _ hcd hd he => ?_
      exact hcd (by rw [← hback]; exact hd) (hbefore _ _ he (hfree _ (hsub.subset hc)))
    · rw [show mutex.waitList = _ from hlist, List.pairwise_append]
      refine ⟨h.ordered.imp_of_mem fun hc hd hcd hback' he => ?_, List.pairwise_singleton _ _,
        fun c hc d hd hback' he => ?_⟩
      · refine hcd ?_ (hbefore _ _ he (hfree _ hc))
        rw [show putBack = _ from hback, Function.update_of_ne] at hback'
        · exact hback'
        · rintro rfl
          exact hfree _ hd hhand
      · obtain rfl := List.mem_singleton.mp hd
        rw [show putBack = _ from hback, Function.update_self] at hback'
        have hmem := (hbefore d c he (hfree c hc)).1.subset (List.mem_cons_self)
        rcases hb with rfl | hline
        · cases hback'
        · exact hline hmem
  · dsimp only at hc
    by_cases hut : u = t
    · subst hut
      rw [hself] at hc
      have hline : [d, c].Sublist s.line := by
        rcases hm.line with hsub | ⟨next, -, hoffered, -, -⟩
        · exact he.1.trans hsub
        · rw [hoffered] at hc
          cases hc
      have hbefore := hearlier d c he hline
      rcases hm.offered c hc with hold | htakes
      · exact h.offered u c hold d hbefore
      · obtain ⟨hback, hhand⟩ := hg c htakes d hbefore
        rcases h.here d (hline.subset (by simp)) with hmem | ⟨v, hv⟩
        · obtain ⟨rest, hrest⟩ := State.head_of_takes htakes
          have hordered := h.ordered
          rw [hrest] at hordered
          have hne : d ≠ c := by
            have := h.nodup.sublist hline
            simpa using this
          have hd : d ∈ rest := by
            rw [hrest] at hmem
            exact (List.mem_cons.mp hmem).resolve_left hne
          exact (List.pairwise_cons.mp hordered).1 d hd (hback hmem) hbefore
        · exact hhand v hv
    · rw [hother u hut] at hc
      refine h.offered u c hc d (hbefore d c he fun hhand => ?_)
      exact hut (hi.hand_unique (Call.hand_of_offered hc) hhand)

omit [DecidableEq Thread] [Fintype Thread] in
theorem coStep_frame {m m' : State Thread Co} {mayChain shutdown : Bool} {q : CoPc}
    (h : coStep m c mayChain spurious shutdown q = some m') :
    m'.call = m.call ∧ m'.waitList = m.waitList ∧
      (∀ e, m.coCancelled e = true → m'.coCancelled e = true) ∧ m'.cancelled = m.cancelled ∧
      (m'.owner = m.owner ∨ q = .tryCas ∧ m'.owner = some c) := by
  have hmark : ∀ e, m.coCancelled e = true → (m.mark c).coCancelled e = true := fun e he =>
    State.mark_coCancelled he
  cases q with
  | tryCas =>
      unfold coStep at h
      dsimp only at h
      split_ifs at h
      · cases h
        exact ⟨rfl, rfl, fun _ he => he, rfl, .inl rfl⟩
      · cases h
        exact ⟨rfl, rfl, fun _ he => he, rfl, .inr ⟨rfl, rfl⟩⟩
      · cases h
        exact ⟨rfl, rfl, fun _ he => he, rfl, .inl rfl⟩
  | suspendMark | resumeMark =>
      cases h
      exact ⟨rfl, rfl, hmark, rfl, .inl rfl⟩
  | onResumeShutdown =>
      cases h
      split
      · exact ⟨rfl, rfl, hmark, rfl, .inl rfl⟩
      · exact ⟨rfl, rfl, fun _ he => he, rfl, .inl rfl⟩
  | outside | callLock | waiting | holding | throwing | unlocking => cases h
  | _ =>
      cases h
      exact ⟨rfl, rfl, fun _ he => he, rfl, .inl rfl⟩

omit [DecidableEq Thread] [DecidableEq Co] [Fintype Thread] in
theorem InLine.frame {m : State Thread Co} (h : InLine s) (hcall : m.call = s.mutex.call)
    (hlist : m.waitList = s.mutex.waitList)
    (hco : ∀ e, s.mutex.coCancelled e = true → m.coCancelled e = true)
    (hmutex : s.mutex.cancelled = true → m.cancelled = true) :
    InLine ⟨m, s.line, s.putBack⟩ := by
  refine ⟨h.nodup, ?_, ?_, ?_⟩
  · simpa only [hcall, hlist] using h.here
  · dsimp only
    rw [hlist]
    exact h.ordered.imp fun hcd hd he => hcd hd (he.mono he.1 hco hmutex)
  · intro u e hu d he
    dsimp only at hu
    rw [hcall] at hu
    exact h.offered u e hu d (he.mono he.1 hco hmutex)

omit [DecidableEq Co] [Fintype Thread] in
theorem InLine.enter {m : State Thread Co} (h : InLine s) (hidle : s.mutex.call t = .idle)
    (hcall : m.call = Function.update s.mutex.call t p)
    (hlist : m.waitList = s.mutex.waitList) (hco : m.coCancelled = s.mutex.coCancelled)
    (hmutex : m.cancelled = s.mutex.cancelled) (hp : ∀ c, p.offered = some c → c ∉ s.line) :
    InLine ⟨m, s.line, s.putBack⟩ := by
  have hmono : ∀ d c, Lined.Earlier ⟨m, s.line, s.putBack⟩ d c → s.Earlier d c := fun d c he =>
    he.mono he.1 (fun e => by rw [hco]; exact id) fun hc => by rw [hmutex]; exact hc
  refine ⟨h.nodup, fun c hc => ?_, ?_, fun u c hu d he => ?_⟩
  · dsimp only
    rw [hlist]
    refine (h.here c hc).imp_right fun ⟨u, hu⟩ => ⟨u, ?_⟩
    have hut : u ≠ t := by
      rintro rfl
      rw [hidle] at hu
      cases hu
    rw [hcall, Function.update_of_ne hut, hu]
  · dsimp only
    rw [hlist]
    exact h.ordered.imp fun hcd hd he => hcd hd (hmono _ _ he)
  · dsimp only at hu
    rw [hcall] at hu
    by_cases hut : u = t
    · subst hut
      rw [Function.update_self] at hu
      exact hp c hu (he.1.subset (by simp))
    · rw [Function.update_of_ne hut] at hu
      exact h.offered u c hu d (hmono d c he)

theorem inLine_of_reach (hs : (linedSystem Thread Co).ReachWhile InTurn s) : InLine s := by
  induction hs with
  | start h =>
      obtain ⟨coCancelled, coAbandoned, rfl⟩ := h
      exact ⟨List.nodup_nil, nofun, List.Pairwise.nil, nofun⟩
  | @step s s' a hr hg ha ih =>
      have hi := inv_of_reach (refines_mutex.reach hr.reach)
      cases a with
      | call t spurious bound => exact ih.call hi hg ha
      | await c =>
          obtain ⟨m, hm, rfl⟩ := Option.map_eq_some_iff.mp ha
          obtain ⟨-, hm⟩ := Option.ite_none_right_eq_some.mp hm
          cases hm
          exact ih.frame rfl rfl (fun _ he => he) id
      | co c mayChain spurious shutdown =>
          obtain ⟨m, hm, rfl⟩ := Option.map_eq_some_iff.mp ha
          obtain ⟨hcall, hlist, hco, hmutex, -⟩ := coStep_frame hm
          exact ih.frame hcall hlist hco fun hc => by rw [hmutex]; exact hc
      | lock c t =>
          obtain ⟨m, hm, rfl⟩ := Option.map_eq_some_iff.mp ha
          obtain ⟨⟨hc, hidle⟩, hm⟩ := Option.ite_none_right_eq_some.mp hm
          cases hm
          refine ih.enter (p := .lockLoad c .awaiter) hidle rfl rfl rfl rfl fun e he hline => ?_
          cases he
          rw [ih.waiting hi hline] at hc
          cases hc
      | unlock c t =>
          obtain ⟨m, hm, rfl⟩ := Option.map_eq_some_iff.mp ha
          obtain ⟨⟨-, hidle⟩, hm⟩ := Option.ite_none_right_eq_some.mp hm
          cases hm
          exact ih.enter (p := .unlockLoad c) hidle rfl rfl rfl rfl nofun
      | setCancelled c =>
          cases ha
          exact ih.frame rfl rfl (fun e he => State.mark_coCancelled he) id
      | setAbandoned c =>
          cases ha
          exact ih.frame rfl rfl (fun _ he => he) id
      | cancel t =>
          obtain ⟨m, hm, rfl⟩ := Option.map_eq_some_iff.mp ha
          obtain ⟨hidle, hm⟩ := Option.ite_none_right_eq_some.mp hm
          cases hm
          exact ih.enter (p := .cancelMark) hidle rfl rfl rfl rfl nofun
      | remove c t =>
          obtain ⟨m, hm, rfl⟩ := Option.map_eq_some_iff.mp ha
          obtain ⟨⟨-, hidle⟩, hm⟩ := Option.ite_none_right_eq_some.mp hm
          cases hm
          exact ih.enter (p := .removeCount c) hidle rfl rfl rfl rfl nofun

/-- While every waiter that a call takes out of the list for the mutex is the first in the
line, nobody is made the owner before a coroutine that its own `lock` put in the list
earlier, unless one of the two or the mutex is cancelled. -/
theorem served_in_order (hs : (linedSystem Thread Co).ReachWhile InTurn s) {a : Action Thread Co}
    (ha : (linedSystem Thread Co).step s a = some s') (hc : s'.mutex.owner = some c)
    (hnew : s.mutex.owner ≠ some c) : ∀ d, ¬ s.Earlier d c := by
  have h := inLine_of_reach hs
  have hi := inv_of_reach (refines_mutex.reach hs.reach)
  obtain ⟨m, hm, rfl⟩ := Option.map_eq_some_iff.mp ha
  dsimp only at hc
  cases a with
  | call t spurious bound =>
      obtain ⟨p, hmoves⟩ := lineMoves_of_callStep h.nodup hm
      rcases hmoves.owner c hc with hold | hoffered
      · exact absurd hold hnew
      · exact h.offered t c hoffered
  | co e mayChain spurious shutdown =>
      obtain ⟨-, -, -, -, howner⟩ := coStep_frame hm
      rcases howner with hsame | ⟨hp, hown⟩
      · rw [hsame] at hc
        exact absurd hc hnew
      · rw [hown] at hc
        cases hc
        intro d he
        rw [h.waiting hi (he.1.subset (by simp))] at hp
        cases hp
  | await e =>
      obtain ⟨-, hm⟩ := Option.ite_none_right_eq_some.mp hm
      cases hm
      exact absurd hc hnew
  | lock e t | unlock e t | cancel t | remove e t =>
      obtain ⟨-, hm⟩ := Option.ite_none_right_eq_some.mp hm
      cases hm
      exact absurd hc hnew
  | setCancelled e | setAbandoned e =>
      cases hm
      exact absurd hc hnew

end Steps

instance (s : Lined Thread Co) (d c : Co) : Decidable (s.Earlier d c) :=
  inferInstanceAs (Decidable ([d, c].Sublist s.line ∧ s.mutex.coCancelled d = false ∧
    s.mutex.coCancelled c = false ∧ s.mutex.cancelled = false))

instance [Fintype Thread] [Fintype Co] (s : Lined Thread Co) (a : Action Thread Co) :
    Decidable (InTurn s a) :=
  match a with
  | .call t _ _ => inferInstanceAs (Decidable (∀ c, s.mutex.takes t = some c →
      ∀ d, s.Earlier d c → (d ∈ s.mutex.waitList → s.putBack d = false) ∧
        ∀ u, (s.mutex.call u).hand ≠ some d))
  | .await _ | .co _ _ _ _ | .lock _ _ | .unlock _ _ | .setCancelled _ | .setAbandoned _
  | .cancel _ | .remove _ _ => inferInstanceAs (Decidable True)

def queuedUp {n : ℕ} [NeZero n] (waiters : List (Fin n)) : List (Action (Fin n) (Fin n)) :=
  .await 0 :: List.replicate 10 (.co 0 true false false) ++
    waiters.flatMap fun c => .await c :: List.replicate 7 (.co c true false false) ++
      .lock c c :: List.replicate 3 (.call c false 0)

/-- The mutex goes to the first of two waiters. -/
theorem served_in_order_handed_over : ∃ s s' : Lined (Fin 3) (Fin 3),
    (linedSystem (Fin 3) (Fin 3)).Reach s ∧ s.line = [1, 2] ∧
      (linedSystem (Fin 3) (Fin 3)).step s (.call 0 false 0) = some s' ∧
      s'.mutex.owner = some 1 ∧ ¬ s.Earlier 2 1 := by
  obtain ⟨s, hs, hline, howner, hnext⟩ :=
    StepSystem.Reach.exists_of_exec (M := (linedSystem (Fin 3) (Fin 3)).restrict InTurn)
      (P := fun s => s.line = [1, 2] ∧ s.mutex.owner = some 0 ∧
        ((linedSystem (Fin 3) (Fin 3)).step s (.call 0 false 0)).any
          (fun s' => s'.mutex.owner = some 1) = true)
      (s := ⟨initial (fun _ => false) fun _ => false, [], fun _ => false⟩) (.start ⟨_, _, rfl⟩)
      (queuedUp [1, 2] ++ .unlock 0 0 :: List.replicate 3 (.call 0 false 0)) (by decide)
  obtain ⟨s', hs', howner'⟩ := (Option.any_eq_true ..).mp hnext
  have hnew := of_decide_eq_true howner'
  refine ⟨s, s', hs.reachWhile.reach, hline, hs', hnew, ?_⟩
  exact served_in_order hs.reachWhile hs' hnew (by rw [howner]; decide) 2

/-- Three coroutines wait, the second is cancelled, and `remove` puts the first behind the
third while it looks for the second. The next `unlock` makes the third the owner. -/
theorem served_out_of_order : ∃ s s' : Lined (Fin 4) (Fin 4),
    (linedSystem (Fin 4) (Fin 4)).Reach s ∧ s.Earlier 1 3 ∧ s.mutex.owner = some 0 ∧
      (linedSystem (Fin 4) (Fin 4)).step s (.call 0 false 0) = some s' ∧
      s'.mutex.owner = some 3 := by
  obtain ⟨s, hs, hearlier, howner, hnext⟩ :=
    StepSystem.Reach.exists_of_exec (M := linedSystem (Fin 4) (Fin 4))
      (P := fun s => s.Earlier 1 3 ∧ s.mutex.owner = some 0 ∧
        ((linedSystem (Fin 4) (Fin 4)).step s (.call 0 false 0)).any
          (fun s' => s'.mutex.owner = some 3) = true)
      (s := ⟨initial (fun _ => false) fun _ => false, [], fun _ => false⟩) (.start ⟨_, _, rfl⟩)
      (queuedUp [1, 2, 3] ++ [.setCancelled 2, .remove 2 2] ++
        List.replicate 6 (.call 2 false 6) ++
        .unlock 0 0 :: List.replicate 3 (.call 0 false 0)) (by decide)
  obtain ⟨s', hs', howner'⟩ := (Option.any_eq_true ..).mp hnext
  exact ⟨s, s', hs, hearlier, howner, hs', of_decide_eq_true howner'⟩

end LevelzAsync.AsyncMutex
