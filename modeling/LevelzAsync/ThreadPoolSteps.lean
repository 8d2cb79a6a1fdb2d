import LevelzAsync.ThreadPool

/-!
# What one step of a worker does

Everything that the invariants of the pool need from the worker loop is stated here
once, for every program point: the facts that hold there, whether the worker is
counted as sleeping, what happens to the coroutine in its hand, and that it comes to
the points where it no longer looks at the global queue only by finding it empty.
-/

namespace LevelzAsync.ThreadPool

section Tables

variable {n : ℕ} {C : Type*}

/-- In the loop that ends in sleep a worker has nothing to do. -/
def Worker.Free (k : Worker n C) : Prop :=
  k.hand = none ∧ k.running = [] ∧ k.localQueue = []

/-- What holds of a worker at a program point. -/
def Pc.Facts (k : Worker n C) : Pc n → Prop
  | .top | .body | .returnedAtTop | .localPop _ | .globalDequeue true | .steal true _ =>
      k.isSleeping = false ∧ k.hand = none
  | .globalDequeue false | .steal false _ =>
      k.isSleeping = false ∧ k.hand = none ∧ k.localQueue = []
  | .spinDequeue _ | .spinSteal _ _ | .spinState _ | .spinPending | .returnedInSpin => k.Free
  | .setSleeping | .uncountSleeping true | .checkNobodySleeps true | .clearPending true =>
      k.isSleeping = false ∧ k.Free
  | .countSleeping | .beforeSleep | .waitExchange | .waitLocked | .waiting | .clearEvent
  | .afterSleep | .clearSleeping true => k.isSleeping = true ∧ k.Free
  | .normalProcessing => True
  | .clearSleeping false => k.isSleeping = true
  | .uncountSleeping false | .checkNobodySleeps false | .clearPending false | .wake _ | .resume =>
      k.isSleeping = false

def Worker.Fits (k : Worker n C) : Prop := k.pc.Facts k

def Worker.counted (k : Worker n C) : Bool :=
  match k.pc with
  | .countSleeping => false
  | .uncountSleeping _ => true
  | _ => k.isSleeping

def Worker.asleep (k : Worker n C) : Bool :=
  match k.pc with
  | .waitExchange | .waitLocked | .waiting | .clearEvent | .afterSleep => true
  | _ => false

def Pc.settles : Pc n → Bool
  | .spinSteal i _ => numRemoteWorksChecksBeforeSleep ≤ i
  | .spinPending | .beforeSleep | .waitExchange | .waitLocked | .waiting | .clearEvent
  | .afterSleep => true
  | _ => false

def Worker.settled (k : Worker n C) : Bool := k.isSleeping && k.pc.settles

/-- A settled worker whose event is not set stays settled by its own steps. -/
def Worker.cold (k : Worker n C) : Bool :=
  k.settled && decide (k.wakeUpEvent ≠ .set ∧ k.pc ≠ .clearEvent ∧ k.pc ≠ .afterSleep)

def Pc.commits : Pc n → Bool
  | .spinSteal i _ => i < numRemoteWorksChecksBeforeSleep
  | .spinState _ | .returnedInSpin => true
  | _ => false

def Pc.leftAtTop : Pc n → Bool
  | .returnedAtTop => true
  | _ => false

/-- The worker will look at the global queue before it sleeps or leaves. -/
def Pc.isOpen (pc : Pc n) : Bool := !pc.settles && !pc.commits && !pc.leftAtTop

end Tables

section Effects

variable {n : ℕ} {O C : Type*}

def Effect.wakes : Effect n C → Bool
  | .quiet | .pending _ | .setEvent _ => true
  | _ => false

def Effect.CountsMayBe (before after : Bool) : Effect n C → Prop
  | .mayBeSleeping true => before = false ∧ after = true
  | .mayBeSleeping false => before = true ∧ after = false
  | _ => after = before

def Effect.CountsSleeping (before after : Bool) : Effect n C → Prop
  | .sleeping true => before = false ∧ after = true
  | .sleeping false => before = true ∧ after = false
  | _ => after = before

/-- Which coroutine comes into the hand of the worker, and which one leaves it. -/
def Effect.Hands (s : State n O C) (w : Fin n) (k k' : Worker n C) : Effect n C → Prop
  | .takeGlobal c =>
      (∃ q, s.globalQueue = c :: q) ∧ k.hand = none ∧ k'.hand = some c ∧ k'.running = k.running
  | .takeLocal v c =>
      (∃ q, (s.worker v).localQueue = c :: q) ∧ k.hand = none ∧ k'.hand = some c ∧
        k'.running = k.running
  | .globalEnqueue c =>
      s.scheduled c = s.resumed c ∧ k'.hand = k.hand ∧ k.pc = .body ∧
        k'.pc = .wake .chooseImmediate
  | .localEnqueue v c =>
      v = w ∧ s.scheduled c = s.resumed c ∧ k'.hand = k.hand ∧ k.pc = .body ∧
        k'.pc = .wake .chooseImmediate
  | .resume c => k.hand = some c ∧ k'.hand = none ∧ k'.running = c :: k.running
  | _ => k'.hand = k.hand ∧ (k'.running = k.running ∨ k'.running = k.running.tail)

/-- A worker comes to a point of the kind `P` by finding the global queue empty, or
was at such a point and neither took nor scheduled a coroutine. -/
def Enters (s : State n O C) (e : Effect n C) (before after : Bool) : Prop :=
  after = true → e = .quiet ∧ s.globalQueue = [] ∨ before = true ∧ (e = .quiet ∨ e = .sleeping true)

end Effects

/-- One step of a worker with the record `k`, to the record `k'`. -/
structure Moves {n : ℕ} {O C : Type*} (s : State n O C) (w : Fin n) (k k' : Worker n C)
    (e : Effect n C) : Prop where
  fits : k'.Fits
  counted : e.CountsMayBe k.counted k'.counted
  asleep : e.CountsSleeping k.asleep k'.asleep
  hands : e.Hands s w k k'
  localQueue : k'.localQueue = k.localQueue
  settled : Enters s e k.settled k'.settled
  cold : k'.cold = true → k.cold = true ∨ s.globalQueue = []
  commits : Enters s e k.pc.commits k'.pc.commits
  leftAtTop : k'.pc.leftAtTop = true → s.phase = .shuttingDownImmediately

section Moves

variable {n : ℕ} {O C : Type*} {s : State n O C} {w : Fin n} {k k' : Worker n C} {e : Effect n C}

theorem Enters.of_false {before after : Bool} (h : after = false) : Enters s e before after := by
  intro ha
  rw [h] at ha
  cases ha

theorem not_settled (h : k.pc.settles = false) : k.settled = false := by
  unfold Worker.settled
  rw [h, Bool.and_false]

theorem cold_settled (h : k.cold = true) : k.settled = true := by
  unfold Worker.cold at h
  exact (Bool.and_eq_true_iff.mp h).1

/-- `tryGetRemote` comes second only after `tryLocalPop` found nothing. -/
theorem globalDequeue_facts {first : Bool} : (Pc.globalDequeue first).Facts k ↔
    k.isSleeping = false ∧ k.hand = none ∧ (first = false → k.localQueue = []) := by
  cases first with
  | true => exact ⟨fun h => ⟨h.1, h.2, nofun⟩, fun h => ⟨h.1, h.2.1⟩⟩
  | false => exact ⟨fun h => ⟨h.1, h.2.1, fun _ => h.2.2⟩, fun h => ⟨h.1, h.2.1, h.2.2 rfl⟩⟩

theorem steal_facts {first : Bool} {j : ℕ} : (Pc.steal first j).Facts k ↔
    k.isSleeping = false ∧ k.hand = none ∧ (first = false → k.localQueue = []) := by
  cases first with
  | true => exact ⟨fun h => ⟨h.1, h.2, nofun⟩, fun h => ⟨h.1, h.2.1⟩⟩
  | false => exact ⟨fun h => ⟨h.1, h.2.1, fun _ => h.2.2⟩, fun h => ⟨h.1, h.2.1, h.2.2 rfl⟩⟩

/-- A step to a point where the global queue will be looked at. -/
theorem Moves.plain (hfits : k'.Fits) (hcounted : e.CountsMayBe k.counted k'.counted)
    (hasleep : e.CountsSleeping k.asleep k'.asleep) (hhands : e.Hands s w k k')
    (hlocal : k'.localQueue = k.localQueue) (hopen : k'.pc.isOpen = true) :
    Moves s w k k' e := by
  unfold Pc.isOpen at hopen
  obtain ⟨⟨hsettles, hcommits⟩, hleft⟩ : (k'.pc.settles = false ∧ k'.pc.commits = false) ∧
      k'.pc.leftAtTop = false := by simpa using hopen
  have hsettled : k'.settled = false := not_settled hsettles
  refine ⟨hfits, hcounted, hasleep, hhands, hlocal, .of_false hsettled, fun hcold => ?_,
    .of_false hcommits, fun h => ?_⟩
  · rw [cold_settled hcold] at hsettled
    cases hsettled
  · rw [h] at hleft
    cases hleft

/-- A quiet step to such a point. -/
theorem Moves.toOpen {pc : Pc n} (hfits : (k.go pc).Fits)
    (hcounted : (k.go pc).counted = k.counted) (hasleep : (k.go pc).asleep = k.asleep)
    (hopen : pc.isOpen = true) : Moves s w k (k.go pc) .quiet :=
  .plain hfits hcounted hasleep ⟨rfl, .inl rfl⟩ rfl hopen

theorem wakes_countsMayBe {before after : Bool} (he : e.wakes = true) (h : after = before) :
    e.CountsMayBe before after := by
  cases e with
  | quiet | pending count | setEvent i => exact h
  | _ => cases he

theorem wakes_countsSleeping {before after : Bool} (he : e.wakes = true) (h : after = before) :
    e.CountsSleeping before after := by
  cases e with
  | quiet | pending count | setEvent i => exact h
  | _ => cases he

theorem wakes_hands (he : e.wakes = true) (hhand : k'.hand = k.hand)
    (hrunning : k'.running = k.running) : e.Hands s w k k' := by
  cases e with
  | quiet | pending count | setEvent i => exact ⟨hhand, .inl hrunning⟩
  | _ => cases he

/-- The points outside the loop that ends in sleep, where the flag tells the count. -/
def Worker.Busy (k : Worker n C) : Prop :=
  k.isSleeping = false ∧ k.counted = false ∧ k.asleep = false

theorem Moves.afterWake (hbusy : k.Busy) (he : e.wakes = true) : Moves s w k k.afterWake e := by
  obtain ⟨hsleep, hcounted, hasleep⟩ := hbusy
  unfold Worker.afterWake
  split_ifs with hhand hrunning
  · exact .plain hsleep (wakes_countsMayBe he (hsleep.trans hcounted.symm))
      (wakes_countsSleeping he hasleep.symm) (wakes_hands he rfl rfl) rfl rfl
  · have hnone : k.hand = none := by simpa using hhand
    exact .plain ⟨hsleep, hnone⟩ (wakes_countsMayBe he (hsleep.trans hcounted.symm))
      (wakes_countsSleeping he hasleep.symm) (wakes_hands he rfl rfl) rfl rfl
  · have hnone : k.hand = none := by simpa using hhand
    exact .plain ⟨hsleep, hnone⟩ (wakes_countsMayBe he (hsleep.trans hcounted.symm))
      (wakes_countsSleeping he hasleep.symm) (wakes_hands he rfl rfl) rfl rfl

theorem Moves.gotWork {c : C} (hbusy : k.Busy) (he : e = .takeGlobal c ∨ ∃ v, e = .takeLocal v c)
    (hhands : e.Hands s w k (k.gotWork c)) : Moves s w k (k.gotWork c) e := by
  obtain ⟨hsleep, hcounted, hasleep⟩ := hbusy
  have hmayBe : (k.gotWork c).counted = k.counted := by
    rw [hcounted]
    unfold Worker.gotWork Worker.counted
    split_ifs <;> exact hsleep
  have hsleeping : (k.gotWork c).asleep = k.asleep := by
    rw [hasleep]
    unfold Worker.gotWork Worker.asleep
    split_ifs <;> rfl
  have hpc : (k.gotWork c).Fits ∧ (k.gotWork c).pc.isOpen = true := by
    unfold Worker.gotWork Worker.Fits
    split_ifs <;> exact ⟨hsleep, rfl⟩
  rcases he with rfl | ⟨v, rfl⟩
  · exact .plain hpc.1 hmayBe hsleeping hhands rfl hpc.2
  · exact .plain hpc.1 hmayBe hsleeping hhands rfl hpc.2

theorem Moves.gotNoWork (hbusy : k.Busy) (hhand : k.hand = none) (hlocal : k.localQueue = []) :
    Moves s w k k.gotNoWork .quiet := by
  obtain ⟨hsleep, hcounted, hasleep⟩ := hbusy
  unfold Worker.gotNoWork
  split_ifs with hrunning
  · exact .plain ⟨hhand, List.isEmpty_iff.mp hrunning, hlocal⟩ (hsleep.trans hcounted.symm)
      hasleep.symm ⟨rfl, .inl rfl⟩ rfl rfl
  · exact .toOpen ⟨hsleep, hhand⟩ (hsleep.trans hcounted.symm) hasleep.symm rfl

theorem Moves.gotNoRemote {first : Bool} (hbusy : k.Busy) (hhand : k.hand = none)
    (hlocal : first = false → k.localQueue = []) :
    Moves s w k (k.gotNoRemote first) .quiet := by
  unfold Worker.gotNoRemote
  split_ifs with hfirst
  · obtain ⟨hsleep, hcounted, hasleep⟩ := hbusy
    exact .toOpen ⟨hsleep, hhand⟩ (hsleep.trans hcounted.symm) hasleep.symm rfl
  · exact .gotNoWork hbusy hhand (hlocal (by simpa using hfirst))

theorem Moves.tryGetWork {noLocalWork b : Bool} (hbusy : k.Busy) (hhand : k.hand = none) :
    Moves s w k (k.tryGetWork noLocalWork b) .quiet := by
  obtain ⟨hsleep, hcounted, hasleep⟩ := hbusy
  unfold Worker.tryGetWork
  split_ifs
  · exact .toOpen ⟨hsleep, hhand⟩ (hsleep.trans hcounted.symm) hasleep.symm rfl
  · exact .toOpen ⟨hsleep, hhand⟩ (hsleep.trans hcounted.symm) hasleep.symm rfl

/-- A quiet step to a point of the spin, after an empty global queue. -/
theorem Moves.emptyLook {pc : Pc n} (hq : s.globalQueue = []) (hfits : (k.go pc).Fits)
    (hcounted : (k.go pc).counted = k.counted) (hasleep : (k.go pc).asleep = k.asleep)
    (hleft : pc.leftAtTop = false) : Moves s w k (k.go pc) .quiet :=
  ⟨hfits, hcounted, hasleep, ⟨rfl, .inl rfl⟩, rfl, fun _ => .inl ⟨rfl, hq⟩, fun _ => .inr hq,
    fun _ => .inl ⟨rfl, hq⟩, fun h => absurd (hleft.symm.trans h) nofun⟩

theorem cold_of_settled (h : k.settled = true) (hevent : k.wakeUpEvent ≠ .set)
    (hpc : k.pc ≠ .clearEvent ∧ k.pc ≠ .afterSleep) : k.cold = true := by
  unfold Worker.cold
  rw [h, Bool.true_and, decide_eq_true_iff]
  exact ⟨hevent, hpc⟩

theorem event_of_cold (h : k.cold = true) : k.wakeUpEvent ≠ .set := by
  unfold Worker.cold at h
  exact (of_decide_eq_true (Bool.and_eq_true_iff.mp h).2).1

theorem Moves.stay {pc : Pc n} (hfits : (k.go pc).Fits)
    (hcounted : (k.go pc).counted = k.counted) (hasleep : (k.go pc).asleep = k.asleep)
    (hsettles : pc.settles = true → k.pc.settles = true)
    (hpc : k.pc ≠ .clearEvent ∧ k.pc ≠ .afterSleep)
    (hcommits : pc.commits = true → k.pc.commits = true) (hleft : pc.leftAtTop = false) :
    Moves s w k (k.go pc) .quiet := by
  have hsettled : (k.go pc).settled = true → k.settled = true := by
    intro h
    obtain ⟨hsleep, hp⟩ := Bool.and_eq_true_iff.mp h
    exact Bool.and_eq_true_iff.mpr ⟨hsleep, hsettles hp⟩
  refine ⟨hfits, hcounted, hasleep, ⟨rfl, .inl rfl⟩, rfl, fun h => .inr ⟨hsettled h, .inl rfl⟩,
    fun h => .inl ?_, fun h => .inr ⟨hcommits h, .inl rfl⟩,
    fun h => absurd (hleft.symm.trans h) nofun⟩
  have hevent : (k.go pc).wakeUpEvent ≠ .set := event_of_cold h
  exact cold_of_settled (hsettled (cold_settled h)) hevent hpc

/-- `tryGetRemote` in the spin found nothing. -/
theorem Moves.spinNext {i : ℕ} (hfree : k.Free) (hcounted : k.counted = k.isSleeping)
    (hasleep : k.asleep = false)
    (hlook : s.globalQueue = [] ∨ ∃ j, k.pc = .spinSteal i j) :
    Moves s w k (k.spinNext i) .quiet := by
  unfold Worker.spinNext
  rcases hlook with hq | ⟨j, hj⟩
  · split_ifs with hi
    · exact .emptyLook hq hfree hcounted.symm hasleep.symm rfl
    · exact .emptyLook hq hfree hcounted.symm hasleep.symm rfl
  · have hpc : k.pc ≠ .clearEvent ∧ k.pc ≠ .afterSleep := by
      rw [hj]
      exact ⟨nofun, nofun⟩
    split_ifs with hi
    · refine .stay hfree hcounted.symm hasleep.symm nofun hpc (fun _ => ?_) rfl
      rw [hj]
      exact decide_eq_true hi
    · refine .stay hfree hcounted.symm hasleep.symm (fun _ => ?_) hpc nofun rfl
      rw [hj]
      exact decide_eq_true (not_lt.mp hi)

theorem wakeStep_wakes (cfg : Config n O) (caller : Caller) (b : Bool) (pc : WakePc n) :
    (wakeStep cfg s caller b pc).2.wakes = true := by
  unfold wakeStep
  cases pc with
  | checkAllSleeping =>
      dsimp only
      split
      · split_ifs <;> rfl
      · rfl
  | chooseImmediate | loadRequests => rfl
  | _ =>
      dsimp only
      split_ifs <;> rfl

end Moves

section Steps

variable {n : ℕ} {O C : Type*} {cfg : Config n O} {s : State n O C} {w victim : Fin n}
  {k k' : Worker n C} {e : Effect n C} {b : Bool}

theorem goStep_moves (hk : s.worker w = k) (hfits : k.Fits)
    (hs : goStep cfg s w k b victim = some (k', e)) : Moves s w k k' e := by
  obtain ⟨pc, hand, running, isSleeping, wakeUpEvent, localQueue⟩ := k
  unfold goStep at hs
  cases pc with
  | top =>
      obtain ⟨hsleep, hhand⟩ := hfits
      dsimp only at hs
      split_ifs at hs with hphase
      · cases hs
        refine ⟨⟨hsleep, hhand⟩, rfl, rfl, ⟨rfl, .inl rfl⟩, rfl, .of_false (not_settled rfl),
          fun h => ?_, nofun, fun _ => hphase⟩
        exact absurd ((cold_settled h).symm.trans (not_settled rfl)) nofun
      · cases hs
        exact .tryGetWork ⟨hsleep, hsleep, rfl⟩ hhand
  | globalDequeue first =>
      obtain ⟨hsleep, hhand, hlocal⟩ := globalDequeue_facts.mp hfits
      dsimp only at hs
      split at hs
      · next c q hq =>
          cases hs
          exact .gotWork ⟨hsleep, hsleep, rfl⟩ (.inl rfl) ⟨⟨q, hq⟩, hhand, rfl, rfl⟩
      · split_ifs at hs
        · cases hs
          exact .gotNoRemote ⟨hsleep, hsleep, rfl⟩ hhand hlocal
        · cases hs
          exact .toOpen (steal_facts.mpr ⟨hsleep, hhand, hlocal⟩) rfl rfl rfl
  | steal first j =>
      obtain ⟨hsleep, hhand, hlocal⟩ := steal_facts.mp hfits
      dsimp only at hs
      split at hs
      · split at hs
        · next c q hq =>
            cases hs
            exact .gotWork ⟨hsleep, hsleep, rfl⟩ (.inr ⟨victim, rfl⟩) ⟨⟨q, hq⟩, hhand, rfl, rfl⟩
        · cases hs
          exact .toOpen (steal_facts.mpr ⟨hsleep, hhand, hlocal⟩) rfl rfl rfl
      · cases hs
        exact .gotNoRemote ⟨hsleep, hsleep, rfl⟩ hhand hlocal
  | localPop remoteTried =>
      obtain ⟨hsleep, hhand⟩ := hfits
      cases localQueue with
      | cons c q =>
          cases hs
          refine .gotWork ⟨hsleep, hsleep, rfl⟩ (.inr ⟨w, rfl⟩) ⟨⟨q, ?_⟩, hhand, rfl, rfl⟩
          rw [hk]
      | nil =>
          dsimp only at hs
          split_ifs at hs
          · cases hs
            exact .gotNoWork ⟨hsleep, hsleep, rfl⟩ hhand rfl
          · cases hs
            exact .toOpen ⟨hsleep, hhand, rfl⟩ rfl rfl rfl
  | spinDequeue i =>
      dsimp only at hs
      split at hs
      · next c q hq =>
          cases hs
          exact .plain trivial rfl rfl ⟨⟨q, hq⟩, hfits.1, rfl, rfl⟩ rfl rfl
      · next hq =>
          split_ifs at hs
          · cases hs
            exact .spinNext hfits rfl rfl (.inl hq)
          · cases hs
            exact .emptyLook hq hfits rfl rfl rfl
  | spinSteal i j =>
      dsimp only at hs
      split at hs
      · split at hs
        · next c q hq =>
            cases hs
            exact .plain trivial rfl rfl ⟨⟨q, hq⟩, hfits.1, rfl, rfl⟩ rfl rfl
        · cases hs
          exact .stay hfits rfl rfl id ⟨nofun, nofun⟩ id rfl
      · cases hs
        exact .spinNext hfits rfl rfl (.inr ⟨j, rfl⟩)
  | spinState i =>
      dsimp only at hs
      split_ifs at hs
      · cases hs
        exact .stay hfits rfl rfl nofun ⟨nofun, nofun⟩ (fun _ => rfl) rfl
      · cases hs
        exact .toOpen hfits rfl rfl rfl
  | spinPending =>
      dsimp only at hs
      split_ifs at hs with hpending hsleep
      · cases hs
        exact .toOpen trivial rfl rfl rfl
      · cases hs
        exact .stay ⟨hsleep, hfits⟩ rfl rfl (fun _ => rfl) ⟨nofun, nofun⟩ nofun rfl
      · cases hs
        have hsleep : isSleeping = false := by simpa using hsleep
        exact .toOpen ⟨hsleep, hfits⟩ rfl rfl rfl
  | setSleeping =>
      obtain ⟨hsleep, hfree⟩ := hfits
      cases hs
      exact .plain ⟨rfl, hfree⟩ hsleep.symm rfl ⟨rfl, .inl rfl⟩ rfl rfl
  | countSleeping =>
      obtain ⟨hsleep, hfree⟩ := hfits
      cases hs
      exact .plain hfree ⟨rfl, hsleep⟩ rfl ⟨rfl, .inl rfl⟩ rfl rfl
  | beforeSleep =>
      obtain ⟨hsleep, hfree⟩ := hfits
      cases hs
      refine ⟨⟨hsleep, hfree⟩, rfl, ⟨rfl, rfl⟩, ⟨rfl, .inl rfl⟩, rfl, fun _ => .inr ⟨?_, .inr rfl⟩,
        fun h => .inl ?_, nofun, nofun⟩
      · exact Bool.and_eq_true_iff.mpr ⟨hsleep, rfl⟩
      · have hevent : wakeUpEvent ≠ .set := event_of_cold h
        exact cold_of_settled (Bool.and_eq_true_iff.mpr ⟨hsleep, rfl⟩) hevent ⟨nofun, nofun⟩
  | waitExchange =>
      obtain ⟨hsleep, hfree⟩ := hfits
      have hsettled : ∀ k : Worker n C, k.isSleeping = isSleeping → k.pc.settles = true →
          k.settled = true := fun k hk hp => Bool.and_eq_true_iff.mpr ⟨hk.trans hsleep, hp⟩
      dsimp only at hs
      split_ifs at hs with hevent
      · cases hs
        refine ⟨⟨hsleep, hfree⟩, rfl, rfl, ⟨rfl, .inl rfl⟩, rfl,
          fun _ => .inr ⟨hsettled _ rfl rfl, .inl rfl⟩, fun _ => .inl ?_, nofun, nofun⟩
        refine cold_of_settled (hsettled _ rfl rfl) ?_ ⟨nofun, nofun⟩
        rw [hevent]
        nofun
      · cases hs
        exact .stay ⟨hsleep, hfree⟩ rfl rfl (fun _ => rfl) ⟨nofun, nofun⟩ nofun rfl
  | waitLocked =>
      obtain ⟨hsleep, hfree⟩ := hfits
      cases hs
      split_ifs
      · exact .stay ⟨hsleep, hfree⟩ rfl rfl (fun _ => rfl) ⟨nofun, nofun⟩ nofun rfl
      · exact .stay ⟨hsleep, hfree⟩ rfl rfl (fun _ => rfl) ⟨nofun, nofun⟩ nofun rfl
  | waiting =>
      obtain ⟨hsleep, hfree⟩ := hfits
      obtain ⟨-, he⟩ := Option.ite_none_right_eq_some.mp hs
      cases he
      exact .stay ⟨hsleep, hfree⟩ rfl rfl (fun _ => rfl) ⟨nofun, nofun⟩ nofun rfl
  | clearEvent =>
      obtain ⟨hsleep, hfree⟩ := hfits
      cases hs
      refine ⟨⟨hsleep, hfree⟩, rfl, rfl, ⟨rfl, .inl rfl⟩, rfl, fun _ => .inr ⟨?_, .inl rfl⟩,
        fun h => ?_, nofun, nofun⟩
      · exact Bool.and_eq_true_iff.mpr ⟨hsleep, rfl⟩
      · exact absurd rfl (of_decide_eq_true (Bool.and_eq_true_iff.mp h).2).2.2
  | afterSleep =>
      cases hs
      exact .plain hfits rfl ⟨rfl, rfl⟩ ⟨rfl, .inl rfl⟩ rfl rfl
  | clearSleeping woken =>
      cases hs
      cases woken with
      | true => exact .plain ⟨rfl, hfits.2⟩ hfits.1.symm rfl ⟨rfl, .inl rfl⟩ rfl rfl
      | false => exact .plain rfl (Eq.symm hfits) rfl ⟨rfl, .inl rfl⟩ rfl rfl
  | uncountSleeping woken =>
      cases hs
      cases woken with
      | true => exact .plain hfits ⟨rfl, hfits.1⟩ rfl ⟨rfl, .inl rfl⟩ rfl rfl
      | false => exact .plain hfits ⟨rfl, hfits⟩ rfl ⟨rfl, .inl rfl⟩ rfl rfl
  | checkNobodySleeps woken =>
      dsimp only at hs
      split_ifs at hs
      · cases hs
        cases woken with
        | true => exact .toOpen hfits rfl rfl rfl
        | false => exact .toOpen hfits rfl rfl rfl
      · cases hs
        cases woken with
        | true => exact .toOpen hfits.2 rfl rfl rfl
        | false => exact .afterWake ⟨hfits, hfits, rfl⟩ rfl
  | clearPending woken =>
      cases hs
      cases woken with
      | true => exact .plain hfits.2 rfl rfl ⟨rfl, .inl rfl⟩ rfl rfl
      | false => exact .afterWake ⟨hfits, hfits, rfl⟩ rfl
  | normalProcessing =>
      cases hs
      split_ifs with hsleep
      · exact .toOpen hsleep rfl rfl rfl
      · have hsleep : isSleeping = false := by simpa using hsleep
        exact .toOpen hsleep rfl rfl rfl
  | wake pc =>
      have hwakes := wakeStep_wakes (s := s) cfg .own b pc
      dsimp only at hs
      split at hs
      · next pc' e' he =>
          cases hs
          rw [he] at hwakes
          exact .plain hfits (wakes_countsMayBe hwakes rfl) (wakes_countsSleeping hwakes rfl)
            (wakes_hands hwakes rfl rfl) rfl rfl
      · next e' he =>
          cases hs
          rw [he] at hwakes
          exact .afterWake ⟨hfits, hfits, rfl⟩ hwakes
  | resume =>
      obtain ⟨c, hc, he⟩ := Option.map_eq_some_iff.mp hs
      cases he
      exact .plain ⟨hfits, rfl⟩ rfl rfl ⟨hc, rfl, rfl⟩ rfl rfl
  | body | returnedAtTop | returnedInSpin => cases hs

theorem bodyStep_moves [DecidableEq C] {choice : Choice n C} (hbody : k.pc = .body)
    (hfits : k.Fits) (hs : bodyStep cfg s w k choice = some (k', e)) : Moves s w k k' e := by
  obtain ⟨pc, hand, running, isSleeping, wakeUpEvent, localQueue⟩ := k
  obtain rfl : pc = .body := hbody
  obtain ⟨hsleep, hhand⟩ := hfits
  cases choice with
  | go b victim => cases hs
  | schedule c =>
      obtain ⟨hc, he⟩ := Option.ite_none_right_eq_some.mp hs
      cases he
      split_ifs
      · exact .plain hsleep rfl rfl ⟨hc, rfl, rfl, rfl⟩ rfl rfl
      · exact .plain hsleep rfl rfl ⟨rfl, hc, rfl, rfl, rfl⟩ rfl rfl
  | onReady =>
      cases hs
      exact .toOpen hsleep rfl rfl rfl
  | yield b =>
      cases hs
      exact .tryGetWork ⟨hsleep, hsleep, rfl⟩ hhand
  | finish =>
      cases hs
      cases running.tail.isEmpty with
      | true => exact .plain ⟨hsleep, hhand⟩ rfl rfl ⟨rfl, .inr rfl⟩ rfl rfl
      | false => exact .plain ⟨hsleep, hhand⟩ rfl rfl ⟨rfl, .inr rfl⟩ rfl rfl

theorem workerStep_moves [DecidableEq C] {choice : Choice n C} (hfits : (s.worker w).Fits)
    (hs : workerStep cfg s w choice = some (k', e)) : Moves s w (s.worker w) k' e := by
  cases choice with
  | go b victim => exact goStep_moves rfl hfits hs
  | _ =>
      obtain ⟨hbody, hs⟩ := Option.ite_none_right_eq_some.mp hs
      exact bodyStep_moves hbody hfits hs

/-- Only a body that schedules puts a coroutine into a queue. -/
theorem workerStep_enqueues [DecidableEq C] {choice : Choice n C} {c : C}
    (hfits : (s.worker w).Fits) (hs : workerStep cfg s w choice = some (k', e))
    (he : e = .globalEnqueue c ∨ ∃ v, e = .localEnqueue v c) : ∃ c, choice = .schedule c := by
  have hm := workerStep_moves hfits hs
  have hbody : (s.worker w).pc = .body := by
    rcases he with rfl | ⟨v, rfl⟩
    · exact hm.hands.2.2.1
    · exact hm.hands.2.2.2.1
  cases choice with
  | go b victim =>
      unfold workerStep goStep at hs
      dsimp only at hs
      rw [hbody] at hs
      cases hs
  | schedule c => exact ⟨c, rfl⟩
  | onReady | yield b | finish =>
      obtain ⟨-, hs⟩ := Option.ite_none_right_eq_some.mp hs
      cases hs
      rcases he with he | ⟨v, he⟩
      · cases he
      · cases he

end Steps

end LevelzAsync.ThreadPool
