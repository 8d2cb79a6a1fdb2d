import LevelzAsync.Ownership
import Mathlib.Algebra.BigOperators.Group.Finset.Piecewise

/-!
# The completion counts balance

Each unit of a completion count is the coroutine's own one, stands for an owned
coroutine, or is held by a call in progress. A coroutine that is past its
completion and still has an owner is watched by a call that will clear it.
-/

namespace LevelzAsync.Ownership

variable {Thread Co : Type*}

namespace Call

def self : Call Co → Option Co
  | alreadyCompleted c | countUpOwner c _ | exchange c _ | countDownOld c _ | countDownSelf c =>
      some c
  | _ => none

/-- The owner whose count has a unit that is not stored yet, or not any more. -/
def owes : Call Co → Option Co
  | exchange _ newOwner => newOwner
  | countDownOld _ owner | signalCountDown _ owner => some owner
  | _ => none

def newOwner : Call Co → Option Co
  | isZero _ newOwner | countUp _ newOwner | exchange _ newOwner => newOwner
  | countUpOwner _ newOwner => some newOwner
  | _ => none

/-- The coroutine whose count the call has seen at zero. -/
def closes : Call Co → Option Co
  | alreadyCompleted c | signalExchange c => some c
  | _ => none

/-- The coroutine whose owner the call clears if nobody else does. -/
def watches : Call Co → Option Co
  | checkZero c | signalExchange c => some c
  | p => p.self

theorem watches_of_self {p : Call Co} {c : Co} (h : p.self = some c) : p.watches = some c := by
  cases p <;> simp_all [self, watches]

theorem target_of_watches {p : Call Co} {c : Co} (h : p.watches = some c) : p.target = some c := by
  cases p <;> simp_all [watches, self, target]

end Call

namespace Stage

def own : Stage Co → ℕ
  | absent | starting | running | countCheck | setEvent | countDownLast | enqueueCompletedState
  | countDown => 1
  | _ => 0

def owes : Stage Co → Option Co
  | signalCountDown owner => some owner
  | _ => none

/-- Its count was seen without a unit for an owned coroutine. -/
def isChildless : Stage Co → Bool
  | setEvent | countDownLast | setEventLate | signalExchange | signalCountDown _ | completed =>
      true
  | _ => false

/-- The completion has taken the owner. -/
def isSignalled : Stage Co → Bool
  | signalCountDown _ | completed => true
  | _ => false

theorem of_isSignalled {p : Stage Co} (h : p.isSignalled = true) :
    p.own = 0 ∧ p.isChildless = true := by
  cases p <;> simp_all [isSignalled, own, isChildless]

end Stage

variable [DecidableEq Co]

/-- One unit in the count of `o`. -/
def unit (v : Option Co) (o : Co) : ℕ := if v = some o then 1 else 0

@[simp] theorem unit_none (o : Co) : unit none o = 0 := rfl

@[simp] theorem unit_some (c o : Co) : unit (some c) o = if c = o then 1 else 0 := by
  simp [unit]

theorem unit_pos {v : Option Co} {o : Co} (h : 0 < unit v o) : v = some o := by
  by_contra hne
  simp [unit, hne] at h

namespace State

variable [Fintype Thread] [Fintype Co] (s : State Thread Co) (o : Co)

/-- Units for the coroutines that `o` owns, and for those that it is about to
own or does not own any more. -/
def childUnits : ℕ :=
  ∑ c, unit (s.owner c) o + ∑ a, unit (s.call a).owes o + ∑ c, unit (s.stage c).owes o

/-- Units that calls have taken on the coroutine that they are about. -/
def selfUnits : ℕ := ∑ a, unit (s.call a).self o

variable [DecidableEq Thread]

omit [DecidableEq Thread] in
theorem childUnits_storeOwner (c : Co) (v : Option Co) :
    (s.storeOwner c v).childUnits o + unit (s.owner c) o = s.childUnits o + unit v o := by
  have h := sum_update_tally s.owner (fun v => unit v o) c v
  simp only [childUnits, storeOwner]
  omega

omit [DecidableEq Thread] in
theorem childUnits_goStage (c : Co) (p : Stage Co) :
    (s.goStage c p).childUnits o + unit (s.stage c).owes o = s.childUnits o + unit p.owes o := by
  have h := sum_update_tally s.stage (fun p => unit p.owes o) c p
  simp only [childUnits, goStage]
  omega

theorem childUnits_goCall (a : Agent Thread Co) (p : Call Co) :
    (s.goCall a p).childUnits o + unit (s.call a).owes o = s.childUnits o + unit p.owes o := by
  have h := sum_update_tally s.call (fun p => unit p.owes o) a p
  simp only [childUnits, goCall]
  omega

end State

variable [Fintype Thread] [Fintype Co] [DecidableEq Thread]

structure Inv (s : State Thread Co) : Prop where
  balance : ∀ o, s.count o = (s.stage o).own + s.childUnits o + s.selfUnits o
  bodies : ∀ a r, (s.call a).newOwner = some r → a = .inl r ∧ s.stage r = .running
  childless : ∀ c, (s.stage c).isChildless = true → s.childUnits c = 0
  closed : ∀ a c, (s.call a).closes = some c → (s.stage c).own = 0 ∧ s.childUnits c = 0
  signalled : ∀ c, (s.stage c).isSignalled = true → s.owner c ≠ none →
    ∃ a, (s.call a).watches = some c

structure CallMoves (s s' : State Thread Co) (a : Agent Thread Co) (p : Call Co) : Prop where
  call : s'.call = Function.update s.call a p
  stage : s'.stage = s.stage
  balance : ∀ o, s'.count o + s.childUnits o + unit (s.call a).self o =
    s.count o + s'.childUnits o + unit p.self o
  children : ∀ o, s'.childUnits o ≤ s.childUnits o ∨ s.stage o = .running
  newOwner : ∀ r, p.newOwner = some r → (s.call a).newOwner = some r ∨
    a = .inl r ∧ s.stage r = .running
  closes : ∀ c, p.closes = some c → (s.call a).closes = some c ∨ s.count c = 0
  owner : ∀ c, s'.owner c ≠ none → p.watches = some c ∨
    s.owner c ≠ none ∧ ((s.call a).watches ≠ some c ∨ s.call a = .checkZero c ∧ s.count c ≠ 0)

section Calls

variable {s s' : State Thread Co} {a : Agent Thread Co} {p q : Call Co} {c o : Co}

omit [DecidableEq Thread] in
theorem Inv.count_pos_of_owes (hi : Inv s) (h : (s.call a).owes = some o) : 0 < s.count o := by
  have hle := le_sum_tally s.call (fun p => unit p.owes o) a
  have hb := hi.balance o
  simp only [h, unit_some, if_true] at hle
  simp only [State.childUnits] at hb
  omega

omit [DecidableEq Thread] in
theorem Inv.count_pos_of_self (hi : Inv s) (h : (s.call a).self = some o) : 0 < s.count o := by
  have hle := le_sum_tally s.call (fun p => unit p.self o) a
  have hb := hi.balance o
  simp only [h, unit_some, if_true] at hle
  simp only [State.selfUnits] at hb
  omega

theorem CallMoves.go (hp : s.call a = p) (hself : q.self = p.self) (howes : q.owes = p.owes)
    (hnewOwner : ∀ r, q.newOwner = some r → p.newOwner = some r ∨
      a = .inl r ∧ s.stage r = .running)
    (hcloses : ∀ c, q.closes = some c → p.closes = some c ∨ s.count c = 0)
    (hwatches : ∀ c, q.watches = some c ∨ p.watches ≠ some c ∨ p = .checkZero c ∧ s.count c ≠ 0) :
    CallMoves s (s.goCall a q) a q := by
  subst hp
  have hchild : ∀ o, (s.goCall a q).childUnits o = s.childUnits o := fun o => by
    have h := s.childUnits_goCall o a q
    rw [howes] at h
    omega
  exact
    { call := rfl
      stage := rfl
      balance := fun o => by rw [hchild, hself]; rfl
      children := fun o => .inl (hchild o).le
      newOwner := hnewOwner
      closes := hcloses
      owner := fun c hc => (hwatches c).imp_right fun h => ⟨hc, h⟩ }

theorem CallMoves.withCreators (hm : CallMoves s s' a p) {creators : Co → List Co} :
    CallMoves s { s' with creators := creators } a p :=
  ⟨hm.call, hm.stage, hm.balance, hm.children, hm.newOwner, hm.closes, hm.owner⟩

theorem CallMoves.setCount {x : Co} {n : ℕ} (hp : s.call a = p)
    (hbalance : ∀ o, Function.update s.count x n o + unit p.self o + unit p.owes o =
      s.count o + unit q.self o + unit q.owes o)
    (hchildren : ∀ o, unit q.owes o ≤ unit p.owes o ∨ s.stage o = .running)
    (hnewOwner : ∀ r, q.newOwner = some r → p.newOwner = some r)
    (hcloses : ∀ c, q.closes = some c → p.closes = some c ∨ s.count c = 0)
    (hwatches : ∀ c, q.watches = some c ∨ p.watches ≠ some c) :
    CallMoves s ((s.setCount x n).goCall a q) a q := by
  subst hp
  have hchild : ∀ o, ((s.setCount x n).goCall a q).childUnits o + unit (s.call a).owes o =
      s.childUnits o + unit q.owes o := fun o => (s.setCount x n).childUnits_goCall o a q
  exact
    { call := rfl
      stage := rfl
      balance := fun o => by
        have h₁ := hbalance o
        have h₂ := hchild o
        change Function.update s.count x n o + _ + _ = _
        omega
      children := fun o => by
        have h₂ := hchild o
        refine (hchildren o).imp_left fun h => ?_
        omega
      newOwner := fun r hr => .inl (hnewOwner r hr)
      closes := hcloses
      owner := fun c hc => (hwatches c).imp_right fun h => ⟨hc, .inl h⟩ }

/-- The units that the owner word gives up are those that the call owes after. -/
theorem CallMoves.storeOwner (hp : s.call a = p) (hself : q.self = p.self)
    (howes : q.owes = s.owner c)
    (hnewOwner : ∀ r, q.newOwner = some r → p.newOwner = some r)
    (hcloses : ∀ c, q.closes = some c → p.closes = some c)
    (howner : ∀ d, q.watches = some d ∨ d ≠ c ∧ p.watches ≠ some d ∨ d = c ∧ p.owes = none) :
    CallMoves s ((s.storeOwner c p.owes).goCall a q) a q := by
  subst hp
  have hchild : ∀ o, ((s.storeOwner c (s.call a).owes).goCall a q).childUnits o =
      s.childUnits o := fun o => by
    have h₁ := (s.storeOwner c (s.call a).owes).childUnits_goCall o a q
    have h₂ := s.childUnits_storeOwner o c (s.call a).owes
    rw [howes] at h₁
    change _ + unit (s.call a).owes o = _ at h₁
    omega
  exact
    { call := rfl
      stage := rfl
      balance := fun o => by rw [hchild, hself]; rfl
      children := fun o => .inl (hchild o).le
      newOwner := fun r hr => .inl (hnewOwner r hr)
      closes := fun d hd => .inl (hcloses d hd)
      owner := fun d hd => by
        change Function.update s.owner c (s.call a).owes d ≠ none at hd
        rcases howner d with h | ⟨hdc, h⟩ | ⟨rfl, h⟩
        · exact .inl h
        · rw [Function.update_of_ne hdc] at hd
          exact .inr ⟨hd, .inl h⟩
        · rw [Function.update_self] at hd
          exact absurd h hd }

theorem countUp_of_lt {n : ℕ} (h : n < maxCount) : countUp n = n + 1 := if_neg h.ne

theorem countDown_of_pos {n : ℕ} (h : 0 < n) : countDown n + 1 = n := by
  rw [countDown, if_neg (by omega)]
  omega

omit [Fintype Thread] [Fintype Co] [DecidableEq Thread] in
theorem update_countUp {f : Co → ℕ} (h : f c < maxCount) (o : Co) :
    Function.update f c (countUp (f c)) o = f o + unit (some c) o := by
  rw [countUp_of_lt h, unit_some]
  by_cases hc : o = c
  · subst hc
    simp
  · simp [Function.update_of_ne hc, Ne.symm hc]

omit [Fintype Thread] [Fintype Co] [DecidableEq Thread] in
theorem update_countDown {f : Co → ℕ} (h : 0 < f c) (o : Co) :
    Function.update f c (countDown (f c)) o + unit (some c) o = f o := by
  have hdown := countDown_of_pos h
  rw [unit_some]
  by_cases hc : o = c
  · subst hc
    simpa using hdown
  · simp [Function.update_of_ne hc, Ne.symm hc]

theorem Inv.callMoves (hi : Inv s) (hmax : ∀ o, s.count o < maxCount)
    (ha : callStep s a (s.call a) = some s') : ∃ p, CallMoves s s' a p := by
  cases hp : s.call a with
  | idle => simp [hp, callStep] at ha
  | isZero c newOwner =>
      rw [hp] at ha
      cases ha
      split
      · exact ⟨_, .go hp rfl rfl nofun nofun fun _ => .inr (.inl nofun)⟩
      · exact ⟨_, .go hp rfl rfl (fun _ => .inl) nofun fun _ => .inr (.inl nofun)⟩
  | countUp c newOwner =>
      have hup := update_countUp (hmax c)
      rw [hp] at ha
      cases ha
      split
      next hzero =>
        refine ⟨_, .setCount hp (fun o => by
          rw [hup]
          simp [Call.self, Call.owes])
          (fun _ => .inl le_rfl) nofun (fun d hd => .inr ?_) fun _ => .inr nofun⟩
        cases hd
        exact hzero
      next =>
        cases newOwner <;>
          exact ⟨_, .setCount hp (fun o => by
          rw [hup]
          simp [Call.self, Call.owes])
          (fun _ => .inl le_rfl) (fun _ => id) nofun fun _ => .inr nofun⟩
  | alreadyCompleted c =>
      have hdown := update_countDown (hi.count_pos_of_self (o := c) (by rw [hp]; rfl))
      rw [hp] at ha
      cases ha
      exact ⟨_, .setCount hp (fun o => by
          have := hdown o
          simp only [Call.self, Call.owes, unit_none]
          omega)
        (fun _ => .inl le_rfl) nofun (fun _ => .inl) fun d => Classical.em _⟩
  | countUpOwner c o =>
      have hup := update_countUp (hmax o)
      have hrunning := (hi.bodies a o (by rw [hp]; rfl)).2
      rw [hp] at ha
      cases ha
      refine ⟨_, .setCount hp (fun x => by
          rw [hup]
          simp only [Call.self, Call.owes, unit_none]
          omega)
        (fun x => ?_) (fun _ => id) nofun fun d => Classical.em _⟩
      by_cases hx : x = o
      · exact .inr (hx ▸ hrunning)
      · exact .inl (by simp [Call.owes, Ne.symm hx])
  | exchange c newOwner =>
      rw [hp] at ha
      cases ha
      have howner : ∀ d, some c = some d ∨ d ≠ c ∧ some c ≠ some d ∨ d = c ∧ newOwner = none :=
        fun d => by
          by_cases hd : d = c
          · exact .inl (hd ▸ rfl)
          · exact .inr (.inl ⟨hd, by simpa using Ne.symm hd⟩)
      cases hc : s.owner c with
      | none => exact ⟨_, .storeOwner hp rfl hc.symm nofun nofun howner⟩
      | some old => exact ⟨_, .storeOwner hp rfl hc.symm nofun nofun howner⟩
  | countDownOld c old =>
      have hdown := update_countDown (hi.count_pos_of_owes (o := old) (by rw [hp]; rfl))
      rw [hp] at ha
      cases ha
      exact ⟨_, .setCount hp (fun o => by
          have := hdown o
          simp only [Call.self, Call.owes, unit_none]
          omega)
        (fun _ => .inl (Nat.zero_le _)) nofun nofun fun d => Classical.em _⟩
  | countDownSelf c =>
      have hdown := update_countDown (hi.count_pos_of_self (o := c) (by rw [hp]; rfl))
      rw [hp] at ha
      cases ha
      exact ⟨_, .setCount hp (fun o => by
          have := hdown o
          simp only [Call.self, Call.owes, unit_none]
          omega)
        (fun _ => .inl le_rfl) nofun nofun fun d => Classical.em _⟩
  | checkZero c =>
      rw [hp] at ha
      cases ha
      split
      next hzero =>
        refine ⟨_, .go hp rfl rfl nofun (fun d hd => .inr ?_)
          fun d => (Classical.em _).imp_right .inl⟩
        cases hd
        exact hzero
      next hzero =>
        refine ⟨_, .go hp rfl rfl nofun nofun fun d => .inr ?_⟩
        by_cases hd : d = c
        · exact .inr ⟨hd ▸ rfl, hd ▸ hzero⟩
        · exact .inl (by simpa [Call.watches] using Ne.symm hd)
  | signalExchange c =>
      rw [hp] at ha
      cases ha
      have howner : ∀ d, none = some d ∨ d ≠ c ∧ some c ≠ some d ∨
          d = c ∧ (none : Option Co) = none := fun d => by
        by_cases hd : d = c
        · exact .inr (.inr ⟨hd, rfl⟩)
        · exact .inr (.inl ⟨hd, by simpa using Ne.symm hd⟩)
      cases hc : s.owner c with
      | none => exact ⟨_, .storeOwner hp rfl hc.symm nofun nofun howner⟩
      | some owner => exact ⟨_, .storeOwner hp rfl hc.symm nofun nofun howner⟩
  | signalCountDown c owner =>
      have hdown := update_countDown (hi.count_pos_of_owes (o := owner) (by rw [hp]; rfl))
      rw [hp] at ha
      cases ha
      exact ⟨_, .setCount hp (fun o => by
          have := hdown o
          simp only [Call.self, Call.owes, unit_none]
          omega)
        (fun _ => .inl (Nat.zero_le _)) nofun nofun fun _ => .inr nofun⟩

omit [DecidableEq Thread] in
theorem Inv.closed_of_zero (hi : Inv s) (h : s.count c = 0) :
    (s.stage c).own = 0 ∧ s.childUnits c = 0 := by
  have hb := hi.balance c
  omega

omit [DecidableEq Thread] in
/-- A signalled coroutine whose count is not zero is watched by a call that has
taken a unit on it. -/
theorem Inv.exists_self (hi : Inv s) (hc : (s.stage c).isSignalled = true) (h : s.count c ≠ 0) :
    ∃ a, (s.call a).self = some c := by
  obtain ⟨hown, hchildless⟩ := Stage.of_isSignalled hc
  have hb := hi.balance c
  rw [hown, hi.childless c hchildless] at hb
  have hpos : 0 < ∑ a, unit (s.call a).self c := by
    simp only [State.selfUnits] at hb
    omega
  obtain ⟨a, ha⟩ := exists_of_sum_tally_pos (f := s.call) (g := fun p => unit p.self c) hpos
  exact ⟨a, unit_pos ha⟩

theorem Inv.call_step (hi : Inv s) (hm : CallMoves s s' a p) : Inv s' := by
  have hself : s'.call a = p := by rw [hm.call, Function.update_self]
  have hother : ∀ b, b ≠ a → s'.call b = s.call b := fun b hb => by
    rw [hm.call, Function.update_of_ne hb]
  have hchild : ∀ c, (s.stage c).own = 0 ∨ (s.stage c).isChildless = true →
      s.childUnits c = 0 → s'.childUnits c = 0 := fun c hc hz => by
    rcases hm.children c with hle | hrunning
    · omega
    · rw [hrunning] at hc
      rcases hc with hc | hc <;> cases hc
  refine
    { balance := fun o => ?_
      bodies := fun b r h => ?_
      childless := fun c h => ?_
      closed := fun b c h => ?_
      signalled := fun c h ho => ?_ }
  · have hsum := sum_update_tally s.call (fun p => unit p.self o) a p
    have hb := hi.balance o
    have hstep := hm.balance o
    simp only [State.selfUnits, hm.call, hm.stage] at hb ⊢
    omega
  · rw [hm.stage]
    by_cases hb : b = a
    · subst hb
      exact (hm.newOwner r (hself ▸ h)).elim (hi.bodies b r) id
    · exact hi.bodies b r (hother b hb ▸ h)
  · rw [hm.stage] at h
    exact hchild c (.inr h) (hi.childless c h)
  · have hclosed : (s.stage c).own = 0 ∧ s.childUnits c = 0 := by
      by_cases hb : b = a
      · subst hb
        exact (hm.closes c (hself ▸ h)).elim (hi.closed b c) hi.closed_of_zero
      · exact hi.closed b c (hother b hb ▸ h)
    rw [hm.stage]
    exact ⟨hclosed.1, hchild c (.inl hclosed.1) hclosed.2⟩
  · rw [hm.stage] at h
    rcases hm.owner c ho with hw | ⟨hold, hw⟩
    · exact ⟨a, hself ▸ hw⟩
    · obtain ⟨b, hb⟩ := hi.signalled c h hold
      by_cases hne : b = a
      · subst hne
        obtain ⟨hcheck, hcount⟩ := hw.resolve_left fun h => h hb
        obtain ⟨d, hd⟩ := hi.exists_self h hcount
        have hdb : d ≠ b := by
          rintro rfl
          rw [hcheck] at hd
          cases hd
        exact ⟨d, by rw [hother d hdb, Call.watches_of_self hd]⟩
      · exact ⟨b, by rw [hother b hne, hb]⟩

end Calls

structure StageMoves (s s' : State Thread Co) (c : Co) (p : Stage Co) : Prop where
  stage : s'.stage = Function.update s.stage c p
  call : s'.call = s.call
  balance : ∀ o, s'.count o + s.childUnits o + (s.stage o).own =
    s.count o + s'.childUnits o + (s'.stage o).own
  children : ∀ o, s'.childUnits o ≤ s.childUnits o
  bodies : ∀ a, (s.call a).newOwner = some c → p = .running
  childless : p.isChildless = true → s.childUnits c = 0
  own : p.own ≤ (s.stage c).own
  owner : ∀ d, s'.owner d ≠ none → s.owner d ≠ none
  signalled : p.isSignalled = true → s'.owner c ≠ none → (s.stage c).isSignalled = true

section Stages

variable {s s' : State Thread Co} {c o : Co} {p q : Stage Co}

omit [DecidableEq Thread] in
theorem Inv.stage_step (hi : Inv s) (hm : StageMoves s s' c p) : Inv s' := by
  have hself : s'.stage c = p := by rw [hm.stage, Function.update_self]
  have hother : ∀ d, d ≠ c → s'.stage d = s.stage d := fun d hd => by
    rw [hm.stage, Function.update_of_ne hd]
  have hzero : ∀ d, s.childUnits d = 0 → s'.childUnits d = 0 := fun d h => by
    have := hm.children d
    omega
  refine
    { balance := fun o => ?_
      bodies := fun a r h => ?_
      childless := fun d h => ?_
      closed := fun a d h => ?_
      signalled := fun d h ho => ?_ }
  · have hb := hi.balance o
    have hstep := hm.balance o
    simp only [State.selfUnits, hm.call] at hb ⊢
    omega
  · rw [hm.call] at h
    obtain ⟨ha, hr⟩ := hi.bodies a r h
    by_cases hrc : r = c
    · subst hrc
      exact ⟨ha, hself.trans (hm.bodies a h)⟩
    · exact ⟨ha, (hother r hrc).trans hr⟩
  · by_cases hd : d = c
    · subst hd
      exact hzero d (hm.childless (hself ▸ h))
    · exact hzero d (hi.childless d (hother d hd ▸ h))
  · rw [hm.call] at h
    obtain ⟨hown, hchild⟩ := hi.closed a d h
    refine ⟨?_, hzero d hchild⟩
    by_cases hd : d = c
    · subst hd
      have := hm.own
      rw [hself]
      omega
    · rw [hother d hd, hown]
  · rw [hm.call]
    refine hi.signalled d ?_ (hm.owner d ho)
    by_cases hd : d = c
    · subst hd
      exact hm.signalled (hself ▸ h) ho
    · exact hother d hd ▸ h

omit [DecidableEq Thread] in
theorem StageMoves.go (hp : s.stage c = p) (hown : q.own = p.own) (howes : q.owes = p.owes)
    (hbodies : ∀ a, (s.call a).newOwner = some c → q = .running)
    (hchildless : q.isChildless = true → s.childUnits c = 0)
    (hsignalled : q.isSignalled = false) : StageMoves s (s.goStage c q) c q := by
  subst hp
  have hchild : ∀ o, (s.goStage c q).childUnits o = s.childUnits o := fun o => by
    have h := s.childUnits_goStage o c q
    rw [howes] at h
    omega
  refine
    { stage := rfl
      call := rfl
      balance := fun o => ?_
      children := fun o => (hchild o).le
      bodies := hbodies
      childless := hchildless
      own := hown.le
      owner := fun _ => id
      signalled := fun h => ?_ }
  · change s.count o + _ + _ =
      _ + (s.goStage c q).childUnits o + (Function.update s.stage c q o).own
    rw [hchild]
    by_cases ho : o = c
    · subst ho
      rw [Function.update_self, hown]
    · rw [Function.update_of_ne ho]
  · rw [hsignalled] at h
    cases h

omit [DecidableEq Thread] in
theorem StageMoves.withEvent (hm : StageMoves s s' c p) {eventSet : Co → Bool} :
    StageMoves s { s' with eventSet := eventSet } c p :=
  ⟨hm.stage, hm.call, hm.balance, hm.children, hm.bodies, hm.childless, hm.own, hm.owner,
    hm.signalled⟩

omit [DecidableEq Thread] in
theorem Inv.count_pos_of_own (hi : Inv s) (hp : (s.stage c).own = 1) : 0 < s.count c := by
  have := hi.balance c
  omega

omit [DecidableEq Thread] in
theorem Inv.count_pos_of_stage (hi : Inv s) (hp : (s.stage c).owes = some o) : 0 < s.count o := by
  have hle := le_sum_tally s.stage (fun p => unit p.owes o) c
  have hb := hi.balance o
  simp only [hp, unit_some, if_true] at hle
  simp only [State.childUnits] at hb
  omega

omit [DecidableEq Thread] in
/-- No body is about to make an owner of a coroutine that has stopped. -/
theorem Inv.no_newOwner (hi : Inv s) (hp : s.stage c ≠ .running) (a : Agent Thread Co) :
    (s.call a).newOwner ≠ some c := fun h => hp (hi.bodies a c h).2

omit [DecidableEq Thread] in
theorem Inv.no_newOwner_of_idle (hi : Inv s) (hidle : s.call (.inl c) = .idle)
    (a : Agent Thread Co) : (s.call a).newOwner ≠ some c := fun h => by
  obtain ⟨rfl, _⟩ := hi.bodies a c h
  rw [hidle] at h
  cases h

omit [DecidableEq Thread] in
theorem Inv.countDownOwn (hi : Inv s) (hp : s.stage c = p) (hown : p.own = 1)
    (hrunning : p ≠ .running) (howes : p.owes = none) (hq : q.own = 0) (hqowes : q.owes = none)
    (hchildless : q.isChildless = true → p.isChildless = true)
    (hsignalled : q.isSignalled = false) :
    StageMoves s ((s.setCount c (countDown (s.count c))).goStage c q) c q := by
  subst hp
  have hdown := update_countDown (hi.count_pos_of_own hown)
  have hchild : ∀ o, ((s.setCount c (countDown (s.count c))).goStage c q).childUnits o =
      s.childUnits o := fun o => by
    have h := (s.setCount c (countDown (s.count c))).childUnits_goStage o c q
    change _ + unit (s.stage c).owes o = _ at h
    rw [howes, hqowes] at h
    exact h
  refine
    { stage := rfl
      call := rfl
      balance := fun o => ?_
      children := fun o => (hchild o).le
      bodies := fun a h => absurd h (hi.no_newOwner hrunning a)
      childless := fun h => hi.childless c (hchildless h)
      own := by omega
      owner := fun _ => id
      signalled := fun h => ?_ }
  · have h := hdown o
    rw [hchild]
    change Function.update s.count c _ o + _ + _ = _ + _ + (Function.update s.stage c q o).own
    by_cases ho : o = c
    · subst ho
      rw [Function.update_self (f := s.stage), hown, hq]
      simp only [unit_some, if_true] at h
      omega
    · rw [Function.update_of_ne ho (f := s.stage)]
      simp only [unit_some, if_neg (Ne.symm ho)] at h
      omega
  · rw [hsignalled] at h
    cases h

omit [DecidableEq Thread] in
theorem Inv.signalOwner (hi : Inv s) (hp : s.stage c = .signalExchange) (hown : q.own = 0)
    (howes : q.owes = s.owner c) :
    StageMoves s ((s.storeOwner c none).goStage c q) c q := by
  have hchild : ∀ o, ((s.storeOwner c none).goStage c q).childUnits o = s.childUnits o :=
    fun o => by
    have h₁ := (s.storeOwner c none).childUnits_goStage o c q
    have h₂ := s.childUnits_storeOwner o c none
    change _ + unit (s.stage c).owes o = _ at h₁
    rw [hp, howes] at h₁
    simp only [Stage.owes, unit_none] at h₁ h₂
    omega
  refine
    { stage := rfl
      call := rfl
      balance := fun o => ?_
      children := fun o => (hchild o).le
      bodies := fun a h => absurd h (hi.no_newOwner (by rw [hp]; exact nofun) a)
      childless := fun _ => hi.childless c (by rw [hp]; rfl)
      own := by omega
      owner := fun d hd => ?_
      signalled := fun _ h => absurd (Function.update_self ..) h }
  · rw [hchild]
    change _ = _ + _ + (Function.update s.stage c q o).own
    by_cases ho : o = c
    · subst ho
      rw [Function.update_self, hp, hown]
      rfl
    · rw [Function.update_of_ne ho]
      rfl
  · change Function.update s.owner c none d ≠ none at hd
    by_cases hdc : d = c
    · subst hdc
      simp at hd
    · rwa [Function.update_of_ne hdc] at hd

omit [DecidableEq Thread] in
theorem Inv.countDownOwner (hi : Inv s) (hp : s.stage c = .signalCountDown o) :
    StageMoves s ((s.setCount o (countDown (s.count o))).goStage c .completed) c .completed := by
  have hdown := update_countDown (hi.count_pos_of_stage (c := c) (o := o) (by rw [hp]; rfl))
  have hchild : ∀ d, ((s.setCount o (countDown (s.count o))).goStage c .completed).childUnits d +
      unit (some o) d = s.childUnits d := fun d => by
    have h := (s.setCount o (countDown (s.count o))).childUnits_goStage d c .completed
    change _ + unit (s.stage c).owes d = _ at h
    rw [hp] at h
    exact h
  refine
    { stage := rfl
      call := rfl
      balance := fun d => ?_
      children := fun d => ?_
      bodies := fun a h => absurd h (hi.no_newOwner (by rw [hp]; exact nofun) a)
      childless := fun _ => hi.childless c (by rw [hp]; rfl)
      own := Nat.zero_le _
      owner := fun _ => id
      signalled := fun _ _ => by rw [hp]; rfl }
  · have h₁ := hdown d
    have h₂ := hchild d
    have hown : (Function.update s.stage c .completed d).own = (s.stage d).own := by
      by_cases hd : d = c
      · subst hd
        rw [Function.update_self, hp]
        rfl
      · rw [Function.update_of_ne hd]
    change Function.update s.count o _ d + _ + _ = _ + _ + (Function.update s.stage c _ d).own
    omega
  · have := hchild d
    omega

omit [DecidableEq Thread] in
theorem Inv.stageMoves (hi : Inv s) (ha : completionStep s c (s.stage c) = some s') :
    ∃ p, StageMoves s s' c p := by
  have hbodies : s.stage c ≠ .running → ∀ (p : Stage Co) a, (s.call a).newOwner = some c →
      p = .running := fun h _ a ha => absurd ha (hi.no_newOwner h a)
  cases hp : s.stage c <;> simp only [hp, completionStep, reduceCtorEq] at ha hbodies
  case countCheck =>
    cases ha
    split
    next hone =>
      have hb := hi.balance c
      rw [hone, hp, Stage.own] at hb
      exact ⟨_, .go hp rfl rfl (hbodies nofun _) (fun _ => by omega) rfl⟩
    next => exact ⟨_, .go hp rfl rfl (hbodies nofun _) nofun rfl⟩
  case setEvent =>
    cases ha
    have hm : StageMoves s (s.goStage c .countDownLast) c .countDownLast :=
      .go hp rfl rfl (hbodies nofun _) (fun _ => hi.childless c (by rw [hp]; rfl)) rfl
    exact ⟨_, hm.withEvent⟩
  case countDownLast =>
    cases ha
    exact ⟨_, hi.countDownOwn hp rfl nofun rfl rfl rfl (fun _ => rfl) rfl⟩
  case enqueueCompletedState =>
    cases ha
    exact ⟨_, .go hp rfl rfl (hbodies nofun _) nofun rfl⟩
  case countDown =>
    cases ha
    exact ⟨_, hi.countDownOwn hp rfl nofun rfl rfl rfl nofun rfl⟩
  case waiting =>
    split at ha
    next hzero =>
      cases ha
      exact ⟨_, .go hp rfl rfl (hbodies nofun _) (fun _ => (hi.closed_of_zero hzero).2) rfl⟩
    next => cases ha
  case setEventLate =>
    cases ha
    have hm : StageMoves s (s.goStage c .signalExchange) c .signalExchange :=
      .go hp rfl rfl (hbodies nofun _) (fun _ => hi.childless c (by rw [hp]; rfl)) rfl
    exact ⟨_, hm.withEvent⟩
  case signalExchange =>
    cases ha
    cases ho : s.owner c <;> exact ⟨_, hi.signalOwner hp rfl ho.symm⟩
  case signalCountDown owner =>
    cases ha
    exact ⟨_, hi.countDownOwner hp⟩

theorem Inv.step (hi : Inv s) (hmax : ∀ o, s.count o < maxCount) {a : Action Thread Co}
    (ha : step s a = some s') : Inv s' := by
  cases a with
  | create r c =>
      obtain ⟨⟨hc, hr, hidle⟩, ha⟩ := Option.ite_none_right_eq_some.mp ha
      cases ha
      have hrc : r ≠ c := by
        rintro rfl
        rw [hc] at hr
        cases hr
      have hi' : Inv (s.goStage c .starting) := hi.stage_step (.go hc rfl rfl
        (fun a h => absurd h (hi.no_newOwner (by rw [hc]; exact nofun) a)) nofun rfl)
      have hm : CallMoves (s.goStage c .starting)
          ((s.goStage c .starting).goCall (.inl r) (.isZero c (some r))) (.inl r)
          (.isZero c (some r)) := by
        refine .go hidle rfl rfl (fun d hd => .inr ?_) nofun fun _ => .inr (.inl nofun)
        cases hd
        exact ⟨rfl, (Function.update_of_ne hrc ..).trans hr⟩
      exact hi'.call_step hm.withCreators
  | start c =>
      obtain ⟨⟨hc, _⟩, ha⟩ := Option.ite_none_right_eq_some.mp ha
      cases ha
      exact hi.stage_step (.go hc rfl rfl (fun _ _ => rfl) nofun rfl)
  | setOwner a c clear =>
      obtain ⟨⟨hidle, _⟩, ha⟩ := Option.ite_none_right_eq_some.mp ha
      cases a with
      | inl r =>
          obtain ⟨hr, ha⟩ := Option.ite_none_right_eq_some.mp ha
          cases ha
          refine hi.call_step (.go hidle rfl rfl (fun d hd => .inr ?_) nofun
            fun _ => .inr (.inl nofun))
          cases clear <;> cases hd
          exact ⟨rfl, hr⟩
      | inr t =>
          obtain ⟨_, ha⟩ := Option.ite_none_right_eq_some.mp ha
          cases ha
          exact hi.call_step (.go hidle rfl rfl nofun nofun fun _ => .inr (.inl nofun))
  | call a =>
      obtain ⟨p, hm⟩ := hi.callMoves hmax ha
      exact hi.call_step hm
  | finish r =>
      obtain ⟨⟨hr, hidle⟩, ha⟩ := Option.ite_none_right_eq_some.mp ha
      cases ha
      exact hi.stage_step (.go hr rfl rfl (fun a h => absurd h (hi.no_newOwner_of_idle hidle a))
        nofun rfl)
  | discard c =>
      obtain ⟨⟨hc, hidle, hone⟩, ha⟩ := Option.ite_none_right_eq_some.mp ha
      cases ha
      have hb := hi.balance c
      rw [hone, hc, Stage.own] at hb
      exact hi.stage_step (.go hc rfl rfl (fun a h => absurd h (hi.no_newOwner_of_idle hidle a))
        (fun _ => by omega) rfl)
  | completion c =>
      obtain ⟨p, hm⟩ := hi.stageMoves ha
      exact hi.stage_step hm

omit [DecidableEq Thread] in
theorem inv_initial (isRoot : Co → Bool) : Inv (initial isRoot : State Thread Co) := by
  have howes : ∀ c, ((initial isRoot : State Thread Co).stage c).owes = none := fun c => by
    simp only [initial]
    split <;> rfl
  have hchild : ∀ o, (initial isRoot : State Thread Co).childUnits o = 0 := fun o => by
    simp only [State.childUnits, howes]
    simp [initial, Call.owes]
  refine
    { balance := fun o => ?_
      bodies := nofun
      childless := fun c _ => hchild c
      closed := nofun
      signalled := fun c _ ho => absurd rfl ho }
  rw [hchild, State.selfUnits]
  simp only [initial]
  split <;> simp [Call.self, Stage.own]

/-- No coroutine's count ever comes near `INT_MAX`. -/
def fewUnits (s : State Thread Co) : Prop := ∀ o, s.count o < maxCount

instance (s : State Thread Co) : Decidable (fewUnits s) :=
  inferInstanceAs (Decidable (∀ o, s.count o < maxCount))

theorem inv_of_reachWhile (hs : (system Thread Co).ReachWhile (fun s _ => fewUnits s) s) :
    Inv s := by
  refine hs.invariant (fun s h => ?_) fun s a s' hi hmax ha => hi.step hmax ha
  obtain ⟨isRoot, rfl⟩ := h
  exact inv_initial isRoot

/-- The units of calls in progress: on the coroutine itself, counted up for an
owner that is not stored yet, and taken out of an owner word but not counted
down yet. -/
def State.temporaryUnits (s : State Thread Co) (o : Co) : ℕ :=
  ∑ a, (unit (s.call a).self o + unit (s.call a).owes o) + ∑ c, unit (s.stage c).owes o

/-- The units that the count of `o` has for the coroutine `c`. -/
def State.unitsFor (s : State Thread Co) (c o : Co) : ℕ :=
  unit (s.owner c) o + unit (s.stage c).owes o +
    ∑ a, if (s.call a).target = some c then unit (s.call a).owes o else 0

/-- In every state of every run with fewer than `INT_MAX` units, for every set of
coroutines: each count is the coroutine's own unit, one unit for each coroutine
that it owns and the units of calls in progress. A coroutine that has completed
and that no call is about has count zero, no owner, and no unit anywhere. -/
theorem completion_counts_balance
    (hs : (system Thread Co).ReachWhile (fun s _ => fewUnits s) s) :
    (∀ o, s.count o = (s.stage o).own + (Finset.univ.filter fun c => s.owner c = some o).card +
      s.temporaryUnits o) ∧
    ∀ c, s.stage c = .completed → (∀ a, (s.call a).target ≠ some c) →
      s.count c = 0 ∧ s.owner c = none ∧ ∀ o, s.unitsFor c o = 0 := by
  have hi := inv_of_reachWhile hs
  refine ⟨fun o => ?_, fun c hc hidle => ?_⟩
  · have hb := hi.balance o
    have hcard : (Finset.univ.filter fun c => s.owner c = some o).card =
        ∑ c, unit (s.owner c) o := Finset.card_filter ..
    rw [hb, hcard, State.childUnits, State.selfUnits, State.temporaryUnits,
      Finset.sum_add_distrib]
    omega
  · have hnone : ∀ a, (s.call a).watches ≠ some c := fun a h => hidle a (Call.target_of_watches h)
    have howner : s.owner c = none := by
      by_contra ho
      obtain ⟨a, ha⟩ := hi.signalled c (by rw [hc]; rfl) ho
      exact hnone a ha
    refine ⟨?_, howner, fun o => ?_⟩
    · by_contra hcount
      obtain ⟨a, ha⟩ := hi.exists_self (by rw [hc]; rfl) hcount
      exact hnone a (Call.watches_of_self ha)
    · simp [State.unitsFor, howner, hc, Stage.owes, hidle]

end Stages

/-- A root creates a child, which runs and completes with its last unit. -/
def childCompletes : List (Action (Fin 1) (Fin 2)) :=
  .create 0 1 :: List.replicate 6 (.call (.inl 0)) ++
    (.start 1 :: .finish 1 :: List.replicate 5 (.completion 1))

theorem completion_counts_balance_child :
    ∃ s : State (Fin 1) (Fin 2), (system (Fin 1) (Fin 2)).Reach s ∧ s.stage 1 = .completed ∧
      s.count 1 = 0 ∧ s.owner 1 = none ∧ ∀ o, s.unitsFor 1 o = 0 := by
  let M := (system (Fin 1) (Fin 2)).restrict fun s _ => fewUnits s
  obtain ⟨s, hr, hstage, hidle⟩ := StepSystem.Reach.exists_of_exec (M := M)
    (P := fun s => s.stage 1 = .completed ∧ ∀ a, (s.call a).target ≠ some 1)
    (s := initial fun c => c = 0) (.start ⟨_, rfl⟩) childCompletes (by decide)
  have h := (completion_counts_balance hr.reachWhile).2 1 hstage hidle
  exact ⟨s, hr.reachWhile.reach, hstage, h⟩

end LevelzAsync.Ownership
