import LevelzAsync.OwnershipCounts
import LevelzAsync.PointerForest

/-!
# A `SyncTask` and the tree of coroutines under it

The coroutines that were created under a `SyncTask` and are not finished keep
its count up as long as their owner words lead to it. A `setOwner` breaks the
chain when the new owner is the coroutine itself or one of its descendants.
-/

namespace LevelzAsync.Ownership

variable {Thread Co : Type*}

/-- `root` or created, transitively, by its body. -/
def State.inTree (s : State Thread Co) (root c : Co) : Prop := c = root ∨ root ∈ s.creators c

def Stage.hasStopped : Stage Co → Bool
  | absent | starting | running => false
  | _ => true

theorem Stage.hasStopped_of_isChildless {p : Stage Co} (h : p.isChildless = true) :
    p.hasStopped = true := by
  cases p <;> simp_all [isChildless, hasStopped]

def Stage.isStarted : Stage Co → Bool
  | absent | starting => false
  | _ => true

variable [DecidableEq Co] [Fintype Thread] [Fintype Co]

namespace State

/-- Its body has not counted down its own unit or it still owns somebody. -/
def isOpen (s : State Thread Co) (c : Co) : Prop := 0 < (s.stage c).own + s.childUnits c

def owns (s : State Thread Co) (c : Co) : Co → Prop := LeadsTo s.owner c fun _ => False

/-- The owner words lead to `root` inside its tree, not through `c`. -/
def leadsPast (s : State Thread Co) (root c : Co) : Co → Prop :=
  LeadsTo s.owner root fun x => x = c ∨ ¬s.inTree root x

/-- The owner words lead to `root` inside its tree. -/
def leadsTo (s : State Thread Co) (root : Co) : Co → Prop :=
  LeadsTo s.owner root fun x => ¬s.inTree root x

end State

/-- A `setOwner` that exchanges the owner of an open coroutine of the tree gives
it an owner in the tree that it does not own itself. -/
def keepsChain (root : Co) (s : State Thread Co) : Action Thread Co → Prop
  | .call a =>
      match s.call a with
      | .exchange c newOwner => c ≠ root → s.inTree root c → s.isOpen c →
          ∃ r, newOwner = some r ∧ s.inTree root r ∧ ¬s.owns c r
      | _ => True
  | _ => True

structure Tree (root : Co) (s : State Thread Co) : Prop where
  anchored : ∀ c, s.inTree root c → c ≠ root → (s.stage c).isStarted = true → s.isOpen c →
    s.leadsTo root c
  creating : ∀ c, s.inTree root c → c ≠ root → s.stage c = .starting → s.leadsTo root c ∨
    ∃ r, s.inTree root r ∧ (s.call (.inl r)).target = some c ∧
      (s.call (.inl r)).newOwner = some r
  fresh : ∀ c, s.stage c = .absent → s.creators c = []
  done : (s.stage root).isChildless = true → ∀ c, s.inTree root c → (s.stage c).hasStopped = true
  event : s.eventSet root = true → (s.stage root).isChildless = true

section Owners

variable {root c d : Co} {s : State Thread Co} {v : Option Co}

theorem State.owner_ne_of_childUnits (h : s.childUnits c = 0) (d : Co) : s.owner d ≠ some c := by
  intro ho
  have hle := le_sum_tally s.owner (fun v => unit v c) d
  simp only [ho, unit_some, if_true] at hle
  simp only [State.childUnits] at h
  omega

theorem State.childUnits_pos_of_leadsTo (h : s.leadsTo root c) (hc : c ≠ root) :
    0 < s.childUnits root := by
  obtain ⟨y, hy⟩ := h.exists_pointer hc
  by_contra hzero
  exact s.owner_ne_of_childUnits (by omega) y hy

/-- Replacing the owner of a coroutine leaves the way of another one to the root:
the coroutine is the root, is not in the tree, is not open, or gets an owner that
leads past it. -/
theorem State.leadsTo_update (h : s.leadsTo root d) (hd : s.isOpen d)
    (hc : c ≠ root → s.inTree root c → s.isOpen c → ∃ r, v = some r ∧ s.leadsPast root c r) :
    LeadsTo (Function.update s.owner c v) root (fun x => ¬s.inTree root x) d := by
  by_cases hroot : c = root
  · subst hroot
    exact h.update_root
  by_cases htree : s.inTree root c
  · by_cases hopen : s.isOpen c
    · obtain ⟨r, rfl, hr⟩ := hc hroot htree hopen
      exact LeadsTo.update_through (not_not.mpr htree) hr h
    · have hzero : s.childUnits c = 0 := by
        rw [State.isOpen] at hopen
        omega
      refine h.update_of_no_pointer (s.owner_ne_of_childUnits hzero) ?_
      rintro rfl
      exact hopen hd
  · exact h.update_of_blocked htree

end Owners

section Steps

variable [DecidableEq Thread] {root c d : Co} {s s' : State Thread Co} {a : Agent Thread Co}
  {p : Call Co} {q : Stage Co}

omit [Fintype Thread] [Fintype Co] in
theorem callStep_owner (ha : callStep s a (s.call a) = some s') :
    s'.creators = s.creators ∧ s'.eventSet = s.eventSet ∧ (s'.owner = s.owner ∨
      (∃ c v, s.call a = .exchange c v ∧ s'.owner = Function.update s.owner c v) ∨
      ∃ c, s.call a = .signalExchange c ∧ s'.owner = Function.update s.owner c none) := by
  cases hp : s.call a <;> simp only [hp, callStep, reduceCtorEq] at ha <;> cases ha
  case exchange c v => exact ⟨rfl, rfl, .inr (.inl ⟨c, v, rfl, rfl⟩)⟩
  case signalExchange c => exact ⟨rfl, rfl, .inr (.inr ⟨c, rfl, rfl⟩)⟩
  all_goals exact ⟨rfl, rfl, .inl rfl⟩

omit [Fintype Thread] [Fintype Co] in
/-- The construction of a handle of a coroutine whose count is not zero goes on
until it stores the owner. -/
theorem callStep_creates {r : Co} (ha : callStep s a (s.call a) = some s')
    (ht : (s.call a).target = some c) (hn : (s.call a).newOwner = some r) (hc : s.count c ≠ 0) :
    (s'.call a).target = some c ∧ (s'.call a).newOwner = some r ∨
      s.call a = .exchange c (some r) := by
  cases hp : s.call a <;> simp only [hp, callStep, reduceCtorEq, Call.newOwner, Call.target,
    Option.some.injEq] at ha ht hn <;> cases ha <;> subst ht
  case isZero =>
    subst hn
    simp [State.goCall, hc, Call.target, Call.newOwner]
  case countUp =>
    subst hn
    simp [State.goCall, hc, Call.target, Call.newOwner]
  case countUpOwner =>
    subst hn
    simp [State.goCall, Call.target, Call.newOwner]
  case exchange =>
    subst hn
    exact .inr rfl

omit [DecidableEq Thread] in
theorem State.isOpen_of_own (h : (s.stage c).own = 1) : s.isOpen c := by
  rw [State.isOpen]
  omega

omit [DecidableEq Thread] in
/-- A new owner is running, so its owner words lead to the root. -/
theorem Tree.leadsPast_newOwner (ht : Tree root s) (hi : Inv s) {v : Option Co}
    (hg : keepsChain root s (.call a)) (hp : s.call a = .exchange c v) (hne : c ≠ root)
    (hc : s.inTree root c) (ho : s.isOpen c) : ∃ r, v = some r ∧ s.leadsPast root c r := by
  simp only [keepsChain, hp] at hg
  obtain ⟨r, rfl, hr, hno⟩ := hg hne hc ho
  have hrunning : s.stage r = .running := (hi.bodies a r (by rw [hp]; rfl)).2
  have hlead : s.leadsTo root r := by
    by_cases hroot : r = root
    · subst hroot
      exact .root
    · exact ht.anchored r hr hroot (by rw [hrunning]; rfl)
        (State.isOpen_of_own (by rw [hrunning]; rfl))
  exact ⟨r, rfl, LeadsTo.avoiding hno hlead⟩

theorem Tree.call_step (ht : Tree root s) (hi : Inv s) (hg : keepsChain root s (.call a))
    (hmax : fewUnits s) (ha : callStep s a (s.call a) = some s') : Tree root s' := by
  obtain ⟨p, hm⟩ := hi.callMoves hmax ha
  obtain ⟨hcreators, hevent, howner⟩ := callStep_owner ha
  have htree : ∀ c, s'.inTree root c ↔ s.inTree root c := fun c => by
    simp only [State.inTree, hcreators]
  have hopen : ∀ c, s'.isOpen c → s.isOpen c := fun c hc => by
    rw [State.isOpen, hm.stage] at hc
    rcases hm.children c with hle | hrunning
    · rw [State.isOpen]
      omega
    · exact State.isOpen_of_own (by rw [hrunning]; rfl)
  have hlead : ∀ c, s.isOpen c → s.leadsTo root c → s'.leadsTo root c := fun c hc h => by
    rw [State.leadsTo]
    simp only [htree]
    rcases howner with he | ⟨d, v, hp, he⟩ | ⟨d, hp, he⟩ <;> rw [he]
    · exact h
    · exact State.leadsTo_update h hc (ht.leadsPast_newOwner hi hg hp)
    · obtain ⟨hown, hchild⟩ := hi.closed a d (by rw [hp]; rfl)
      refine State.leadsTo_update h hc fun _ _ ho => ?_
      rw [State.isOpen] at ho
      omega
  refine
    { anchored := fun c hc hne hs ho => ?_
      creating := fun c hc hne hs => ?_
      fresh := fun c h => ?_
      done := fun h c hc => ?_
      event := fun h => ?_ }
  · rw [hm.stage] at hs
    exact hlead c (hopen c ho) (ht.anchored c ((htree c).mp hc) hne hs (hopen c ho))
  · rw [hm.stage] at hs
    rw [htree] at hc
    have hown : (s.stage c).own = 1 := by rw [hs]; rfl
    have hc' : s.isOpen c := State.isOpen_of_own hown
    rcases ht.creating c hc hne hs with h | ⟨r, hr, htarget, hnew⟩
    · exact .inl (hlead c hc' h)
    · by_cases har : a = .inl r
      · subst har
        have hpos := hi.count_pos_of_own hown
        rcases callStep_creates ha htarget hnew (by omega) with h | h
        · exact .inr ⟨r, (htree r).mpr hr, h⟩
        · left
          obtain ⟨_, ⟨rfl⟩, hpast⟩ := ht.leadsPast_newOwner hi hg h hne hc hc'
          have he : s'.owner = Function.update s.owner c (some r) := by
            rw [h] at ha
            cases ha
            rfl
          rw [State.leadsTo, he]
          simp only [htree]
          exact LeadsTo.self_update (not_not.mpr hc) hpast
      · have hsame : s'.call (.inl r) = s.call (.inl r) := by
          rw [hm.call, Function.update_of_ne (Ne.symm har)]
        exact .inr ⟨r, (htree r).mpr hr, hsame ▸ htarget, hsame ▸ hnew⟩
  · rw [hcreators]
    exact ht.fresh c (hm.stage ▸ h)
  · rw [hm.stage] at h ⊢
    exact ht.done h c ((htree c).mp hc)
  · rw [hm.stage]
    exact ht.event (hevent ▸ h)

omit [DecidableEq Thread] in
/-- When the root is seen without a unit for an owned coroutine, the bodies of
its tree have stopped. -/
theorem Tree.stopped_of_childless (ht : Tree root s) (hi : Inv s) (hzero : s.childUnits root = 0)
    (hroot : s.stage root ≠ .running ∨ s.call (.inl root) = .idle) (hc : s.inTree root c)
    (hne : c ≠ root) : (s.stage c).hasStopped = true := by
  have hnone : ∀ d, s.leadsTo root d → d = root := fun d hd => by
    by_contra h
    have := State.childUnits_pos_of_leadsTo hd h
    omega
  have hrunning : ∀ d, s.inTree root d → d ≠ root → s.stage d ≠ .running := fun d hd hdr hs =>
    hdr (hnone d (ht.anchored d hd hdr (by rw [hs]; rfl) (State.isOpen_of_own (by rw [hs]; rfl))))
  by_contra hs
  have hcases : s.stage c = .absent ∨ s.stage c = .starting ∨ s.stage c = .running := by
    cases hp : s.stage c <;> simp_all [Stage.hasStopped]
  rcases hcases with hs | hs | hs
  · rcases hc with hc | hc
    · exact hne hc
    · simp [ht.fresh c hs] at hc
  · rcases ht.creating c hc hne hs with h | ⟨r, hr, _, hnew⟩
    · exact hne (hnone c h)
    · have hbody := (hi.bodies _ r hnew).2
      by_cases hrr : r = root
      · subst hrr
        rcases hroot with h | h
        · exact h hbody
        · rw [h] at hnew
          cases hnew
      · exact hrunning r hr hrr hbody
  · exact hrunning c hc hne hs

omit [DecidableEq Thread] in
theorem Tree.stage_step (ht : Tree root s) (hi : Inv s) (hm : StageMoves s s' c q)
    (hstarted : (s.stage c).isStarted = true ∨
      s.stage c = .starting ∧ (s.inTree root c → c ≠ root → s.leadsTo root c))
    (hstop : (s.stage c).hasStopped = true → q.hasStopped = true)
    (hchildless : (s.stage c).isChildless = true → q.isChildless = true)
    (hq : q ≠ .starting ∧ q ≠ .absent)
    (hidle : q.isChildless = true → s.stage c ≠ .running ∨ s.call (.inl c) = .idle)
    (hcreators : s'.creators = s.creators)
    (hevent : s'.eventSet root = true → s.eventSet root = true ∨
      c = root ∧ q.isChildless = true)
    (howner : s'.owner = s.owner ∨ ¬s.isOpen c ∧ s'.owner = Function.update s.owner c none) :
    Tree root s' := by
  have hself : s'.stage c = q := by rw [hm.stage, Function.update_self]
  have hother : ∀ d, d ≠ c → s'.stage d = s.stage d := fun d hd => by
    rw [hm.stage, Function.update_of_ne hd]
  have htree : ∀ d, s'.inTree root d ↔ s.inTree root d := fun d => by
    simp only [State.inTree, hcreators]
  have hopen : ∀ d, s'.isOpen d → s.isOpen d := fun d hd => by
    have hle := hm.children d
    have hown : (s'.stage d).own ≤ (s.stage d).own := by
      by_cases hdc : d = c
      · subst hdc
        rw [hself]
        exact hm.own
      · rw [hother d hdc]
    rw [State.isOpen] at hd ⊢
    omega
  have hlead : ∀ d, s.isOpen d → s.leadsTo root d → s'.leadsTo root d := fun d hd h => by
    rw [State.leadsTo]
    simp only [htree]
    rcases howner with he | ⟨hclosed, he⟩ <;> rw [he]
    · exact h
    · exact State.leadsTo_update h hd fun _ _ ho => absurd ho hclosed
  have hstopped : ∀ d, (s.stage d).hasStopped = true → (s'.stage d).hasStopped = true :=
    fun d h => by
    by_cases hdc : d = c
    · subst hdc
      exact hself ▸ hstop h
    · rwa [hother d hdc]
  refine
    { anchored := fun d hd hne hs ho => ?_
      creating := fun d hd hne hs => ?_
      fresh := fun d h => ?_
      done := fun h d hd => ?_
      event := fun h => ?_ }
  · rw [htree] at hd
    refine hlead d (hopen d ho) ?_
    by_cases hdc : d = c
    · subst hdc
      rcases hstarted with h | ⟨_, h⟩
      · exact ht.anchored d hd hne h (hopen d ho)
      · exact h hd hne
    · exact ht.anchored d hd hne (hother d hdc ▸ hs) (hopen d ho)
  · rw [htree] at hd
    have hdc : d ≠ c := by
      rintro rfl
      exact hq.1 (hself.symm.trans hs)
    rw [hother d hdc] at hs
    refine (ht.creating d hd hne hs).imp (hlead d (State.isOpen_of_own (by rw [hs]; rfl))) ?_
    rintro ⟨r, hr, htarget, hnew⟩
    exact ⟨r, (htree r).mpr hr, hm.call ▸ htarget, hm.call ▸ hnew⟩
  · have hdc : d ≠ c := by
      rintro rfl
      exact hq.2 (hself.symm.trans h)
    rw [hcreators]
    exact ht.fresh d (hother d hdc ▸ h)
  · rw [htree] at hd
    by_cases hrc : root = c
    · subst hrc
      by_cases hold : (s.stage root).isChildless = true
      · exact hstopped d (ht.done hold d hd)
      · rw [hself] at h
        by_cases hdr : d = root
        · subst hdr
          rw [hself]
          exact Stage.hasStopped_of_isChildless h
        · exact hstopped d (ht.stopped_of_childless hi (hm.childless h) (hidle h) hd hdr)
    · exact hstopped d (ht.done (hother root hrc ▸ h) d hd)
  · rcases hevent h with h | ⟨rfl, h⟩
    · by_cases hrc : root = c
      · subst hrc
        rw [hself]
        exact hchildless (ht.event h)
      · rw [hother root hrc]
        exact ht.event h
    · rwa [hself]

omit [Fintype Thread] [Fintype Co] [DecidableEq Thread] in
/-- A completion moves on among the stages after the body, sets the event when
no unit for an owned coroutine is left, and clears the owner with its signal. -/
theorem completionStep_stages (ha : completionStep s c (s.stage c) = some s') :
    (s.stage c).isStarted = true ∧ s.stage c ≠ .running ∧ (s'.stage c).hasStopped = true ∧
      ((s.stage c).isChildless = true → (s'.stage c).isChildless = true) := by
  cases hp : s.stage c <;> simp only [hp, completionStep, reduceCtorEq] at ha
  case waiting =>
    obtain ⟨_, ha⟩ := Option.ite_none_right_eq_some.mp ha
    cases ha
    simp [State.goStage, Stage.isStarted, Stage.hasStopped, Stage.isChildless]
  case countCheck =>
    cases ha
    split <;> simp [State.goStage, Stage.isStarted, Stage.hasStopped, Stage.isChildless]
  case signalExchange =>
    cases ha
    split <;> simp [State.goStage, Stage.isStarted, Stage.hasStopped, Stage.isChildless]
  all_goals
    cases ha
    simp [State.goStage, Stage.isStarted, Stage.hasStopped, Stage.isChildless]

omit [Fintype Thread] [Fintype Co] [DecidableEq Thread] in
theorem completionStep_owner (ha : completionStep s c (s.stage c) = some s') :
    s'.creators = s.creators ∧
      (s'.eventSet = s.eventSet ∨ s'.eventSet = Function.update s.eventSet c true ∧
        (s.stage c).isChildless = true) ∧
      (s'.owner = s.owner ∨ s.stage c = .signalExchange ∧
        s'.owner = Function.update s.owner c none) := by
  cases hp : s.stage c <;> simp only [hp, completionStep, reduceCtorEq] at ha
  case waiting =>
    obtain ⟨_, ha⟩ := Option.ite_none_right_eq_some.mp ha
    cases ha
    exact ⟨rfl, .inl rfl, .inl rfl⟩
  case setEvent => cases ha; exact ⟨rfl, .inr ⟨rfl, rfl⟩, .inl rfl⟩
  case setEventLate => cases ha; exact ⟨rfl, .inr ⟨rfl, rfl⟩, .inl rfl⟩
  case signalExchange => cases ha; exact ⟨rfl, .inl rfl, .inr ⟨rfl, rfl⟩⟩
  all_goals cases ha; exact ⟨rfl, .inl rfl, .inl rfl⟩

omit [DecidableEq Thread] in
theorem Tree.completion_step (ht : Tree root s) (hi : Inv s)
    (ha : completionStep s c (s.stage c) = some s') : Tree root s' := by
  obtain ⟨q, hm⟩ := hi.stageMoves ha
  obtain ⟨hstarted, hrunning, hstopped, hchildless⟩ := completionStep_stages ha
  obtain ⟨hcreators, hevent, howner⟩ := completionStep_owner ha
  have hq : s'.stage c = q := by rw [hm.stage, Function.update_self]
  rw [hq] at hstopped hchildless
  refine ht.stage_step hi hm (.inl hstarted) (fun _ => hstopped) hchildless ?_
    (fun _ => .inl hrunning) hcreators (fun h => ?_) ?_
  · constructor <;> rintro rfl <;> cases hstopped
  · rcases hevent with he | ⟨he, hp⟩
    · exact .inl (he ▸ h)
    · by_cases hc : c = root
      · exact .inr ⟨hc, hchildless hp⟩
      · rw [he, Function.update_of_ne (Ne.symm hc)] at h
        exact .inl h
  · refine howner.imp_right fun ⟨hp, he⟩ => ⟨fun ho => ?_, he⟩
    have hzero := hi.childless c (by rw [hp]; rfl)
    have hown : (s.stage c).own = 0 := by rw [hp]; rfl
    rw [State.isOpen] at ho
    omega

theorem Tree.call_begin (ht : Tree root s) (hidle : s.call a = .idle) :
    Tree root (s.goCall a (.isZero c v)) := by
  have hchild : ∀ d, (s.goCall a (.isZero c v)).childUnits d = s.childUnits d := fun d => by
    have h := s.childUnits_goCall d a (.isZero c v)
    rw [hidle] at h
    exact h
  refine
    { anchored := fun d hd hne hs ho => ?_
      creating := fun d hd hne hs => ?_
      fresh := ht.fresh
      done := ht.done
      event := ht.event }
  · rw [State.isOpen, hchild] at ho
    exact ht.anchored d hd hne hs ho
  · refine (ht.creating d hd hne hs).imp_right fun ⟨r, hr, htarget, hnew⟩ => ?_
    have hne : (.inl r : Agent Thread Co) ≠ a := by
      rintro rfl
      rw [hidle] at hnew
      cases hnew
    have hsame : (s.goCall a (.isZero c v)).call (.inl r) = s.call (.inl r) :=
      Function.update_of_ne hne ..
    exact ⟨r, hr, hsame ▸ htarget, hsame ▸ hnew⟩

/-- What the creation of `c` by the body of `r` changes. -/
structure Creates (s s' : State Thread Co) (r c : Co) : Prop where
  stage : s'.stage = Function.update s.stage c .starting
  call : s'.call = Function.update s.call (.inl r) (.isZero c (some r))
  creators : s'.creators = Function.update s.creators c (r :: s.creators r)
  owner : s'.owner = s.owner
  eventSet : s'.eventSet = s.eventSet
  absent : s.stage c = .absent
  running : s.stage r = .running
  idle : s.call (.inl r) = .idle

section Creates

variable {r : Co}

omit [Fintype Thread] [Fintype Co] in
theorem Creates.inTree_iff (hc : Creates s s' r c) (hd : d ≠ c) :
    s'.inTree root d ↔ s.inTree root d := by
  rw [State.inTree, State.inTree, hc.creators, Function.update_of_ne hd]

omit [Fintype Thread] [Fintype Co] in
theorem Creates.creator_inTree (hc : Creates s s' r c) (h : s'.inTree root c) (hne : c ≠ root) :
    s.inTree root r := by
  rw [State.inTree, hc.creators, Function.update_self, List.mem_cons] at h
  rcases h with h | rfl | h
  · exact absurd h hne
  · exact .inl rfl
  · exact .inr h

theorem Creates.inTree (hc : Creates s s' r c) (ht : Tree root s) (h : s.inTree root d) :
    s'.inTree root d := by
  by_cases hd : d = c
  · subst hd
    refine h.imp_right fun h => ?_
    simp [ht.fresh d hc.absent] at h
  · exact (hc.inTree_iff hd).mpr h

theorem Creates.leadsTo (hc : Creates s s' r c) (ht : Tree root s) (h : s.leadsTo root d) :
    s'.leadsTo root d := by
  rw [State.leadsTo, hc.owner]
  exact LeadsTo.mono (fun x hx h => hx (hc.inTree ht h)) h

theorem Creates.childUnits (hc : Creates s s' r c) (d : Co) : s'.childUnits d = s.childUnits d := by
  have h₁ := sum_update_tally s.stage (fun p => unit p.owes d) c .starting
  have h₂ := sum_update_tally s.call (fun p => unit p.owes d) (.inl r) (.isZero c (some r))
  rw [← hc.stage, hc.absent] at h₁
  rw [← hc.call, hc.idle] at h₂
  change _ + 0 = _ + 0 at h₁ h₂
  simp only [State.childUnits, hc.owner]
  omega

/-- The construction of the first handle goes on, or another one of the tree. -/
theorem Creates.creating (hc : Creates s s' r c) (ht : Tree root s) (hd : s'.inTree root d)
    (hne : d ≠ root) (hs : s'.stage d = .starting) :
    s'.leadsTo root d ∨ ∃ x, s'.inTree root x ∧ (s'.call (.inl x)).target = some d ∧
      (s'.call (.inl x)).newOwner = some x := by
  by_cases hdc : d = c
  · subst hdc
    have hcall : s'.call (.inl r) = .isZero d (some r) := by rw [hc.call, Function.update_self]
    exact .inr ⟨r, hc.inTree ht (hc.creator_inTree hd hne), by rw [hcall]; rfl, by rw [hcall]; rfl⟩
  · rw [hc.stage, Function.update_of_ne hdc] at hs
    refine (ht.creating d ((hc.inTree_iff hdc).mp hd) hne hs).imp (hc.leadsTo ht) ?_
    rintro ⟨x, hx, htarget, hown⟩
    have hxr : x ≠ r := by
      rintro rfl
      rw [hc.idle] at hown
      cases hown
    have hsame : s'.call (.inl x) = s.call (.inl x) := by
      rw [hc.call, Function.update_of_ne (by simpa using hxr)]
    exact ⟨x, hc.inTree ht hx, hsame ▸ htarget, hsame ▸ hown⟩

theorem Tree.create_step (ht : Tree root s) (hc : Creates s s' r c) : Tree root s' := by
  have hself : s'.stage c = .starting := by rw [hc.stage, Function.update_self]
  have hother : ∀ d, d ≠ c → s'.stage d = s.stage d := fun d hd => by
    rw [hc.stage, Function.update_of_ne hd]
  have hne : ∀ d, s'.stage d ≠ .starting → d ≠ c := by
    rintro d h rfl
    exact h hself
  refine
    { anchored := fun d hd hdr hs ho => ?_
      creating := fun d => hc.creating ht
      fresh := fun d h => ?_
      done := fun h d hd => ?_
      event := fun h => ?_ }
  · have hdc := hne d fun h => by rw [h] at hs; cases hs
    rw [State.isOpen, hother d hdc, hc.childUnits] at ho
    rw [hother d hdc] at hs
    exact hc.leadsTo ht (ht.anchored d ((hc.inTree_iff hdc).mp hd) hdr hs ho)
  · have hdc := hne d fun h' => by rw [h'] at h; cases h
    rw [hc.creators, Function.update_of_ne hdc]
    exact ht.fresh d (hother d hdc ▸ h)
  · have hrc := hne root fun h' => by rw [h'] at h; cases h
    rw [hother root hrc] at h
    by_cases hdc : d = c
    · subst hdc
      have hstop := ht.done h r (hc.creator_inTree hd (Ne.symm hrc))
      rw [hc.running] at hstop
      cases hstop
    · rw [hother d hdc]
      exact ht.done h d ((hc.inTree_iff hdc).mp hd)
  · have hp := ht.event (hc.eventSet ▸ h)
    have hrc : root ≠ c := by
      rintro rfl
      rw [hc.absent] at hp
      cases hp
    rwa [hother root hrc]

end Creates

theorem Tree.step (ht : Tree root s) (hi : Inv s) {a : Action Thread Co} (hmax : fewUnits s)
    (hg : keepsChain root s a) (ha : step s a = some s') : Tree root s' := by
  cases a with
  | create r c =>
      obtain ⟨⟨hc, hr, hidle⟩, ha⟩ := Option.ite_none_right_eq_some.mp ha
      cases ha
      exact ht.create_step ⟨rfl, rfl, rfl, rfl, rfl, hc, hr, hidle⟩
  | start c =>
      obtain ⟨⟨hc, hcalls⟩, ha⟩ := Option.ite_none_right_eq_some.mp ha
      cases ha
      refine ht.stage_step hi (.go hc rfl rfl (fun _ _ => rfl) nofun rfl) (.inr ⟨hc, ?_⟩)
        (by rw [hc]; exact nofun) (by rw [hc]; exact nofun) ⟨nofun, nofun⟩ nofun rfl .inl (.inl rfl)
      intro htree hne
      rcases ht.creating c htree hne hc with h | ⟨r, _, htarget, _⟩
      · exact h
      · exact absurd htarget (hcalls _)
  | setOwner a c clear =>
      obtain ⟨⟨hidle, _⟩, ha⟩ := Option.ite_none_right_eq_some.mp ha
      cases a with
      | inl r =>
          obtain ⟨_, ha⟩ := Option.ite_none_right_eq_some.mp ha
          cases ha
          exact ht.call_begin hidle
      | inr t =>
          obtain ⟨_, ha⟩ := Option.ite_none_right_eq_some.mp ha
          cases ha
          exact ht.call_begin hidle
  | call a => exact ht.call_step hi hg hmax ha
  | finish r =>
      obtain ⟨⟨hr, hidle⟩, ha⟩ := Option.ite_none_right_eq_some.mp ha
      cases ha
      exact ht.stage_step hi (.go hr rfl rfl
          (fun a h => absurd h (hi.no_newOwner_of_idle hidle a)) nofun rfl)
        (.inl (by rw [hr]; rfl)) (fun _ => rfl) (by rw [hr]; exact nofun) ⟨nofun, nofun⟩ nofun rfl
        .inl (.inl rfl)
  | discard c =>
      obtain ⟨⟨hc, hidle, hone⟩, ha⟩ := Option.ite_none_right_eq_some.mp ha
      cases ha
      have hb := hi.balance c
      rw [hone, hc] at hb
      dsimp only [Stage.own] at hb
      exact ht.stage_step hi (.go hc rfl rfl
          (fun a h => absurd h (hi.no_newOwner_of_idle hidle a)) (fun _ => by omega) rfl)
        (.inl (by rw [hc]; rfl)) (fun _ => rfl) (by rw [hc]; exact nofun) ⟨nofun, nofun⟩
        (fun _ => .inr hidle) rfl .inl (.inl rfl)
  | completion c => exact ht.completion_step hi ha

omit [DecidableEq Thread] in
theorem tree_initial (isRoot : Co → Bool) : Tree root (initial isRoot : State Thread Co) := by
  refine
    { anchored := fun c hc hne => ?_
      creating := fun c hc hne => ?_
      fresh := fun _ _ => rfl
      done := fun h => ?_
      event := nofun }
  · exact absurd (hc.resolve_left hne) nofun
  · exact absurd (hc.resolve_left hne) nofun
  · simp only [initial] at h
    split at h <;> cases h

/-- In every run with fewer than `INT_MAX` units in which no unfinished coroutine
of the tree of a `SyncTask` is given an owner outside the tree or one that it
owns itself: when the event is set, the body of every coroutine of the tree has
stopped. -/
theorem syncTask_event_after_tree
    (hs : (system Thread Co).ReachWhile (fun s a => fewUnits s ∧ keepsChain root s a) s)
    (hset : s.eventSet root = true) :
    ∀ c, s.inTree root c → (s.stage c).hasStopped = true := by
  have hinv : Inv s ∧ Tree root s := by
    refine hs.invariant (I := fun s => Inv s ∧ Tree root s) (fun s h => ?_)
      fun s a s' ⟨hi, ht⟩ ⟨hmax, hg⟩ ha => ⟨hi.step hmax ha, ht.step hi hmax hg ha⟩
    obtain ⟨isRoot, rfl⟩ := h
    exact ⟨inv_initial isRoot, tree_initial isRoot⟩
  exact hinv.2.done (hinv.2.event hset)

end Steps

instance (root c : Co) (s : State Thread Co) : Decidable (s.inTree root c) :=
  inferInstanceAs (Decidable (c = root ∨ root ∈ s.creators c))

/-- `keepsChain`, where at most `n` owner words are followed. -/
def keepsChainWithin (root : Co) (n : ℕ) (s : State Thread Co) :
    Action Thread Co → Bool
  | .call a =>
      match s.call a with
      | .exchange c newOwner => newOwner.any fun r => s.inTree root r && endsWithin s.owner c n r
      | _ => true
  | _ => true

theorem keepsChain_of_keepsChainWithin {root : Co} {n : ℕ}
    {s : State Thread Co} {a : Action Thread Co} (h : keepsChainWithin root n s a = true) :
    keepsChain root s a := by
  cases a with
  | call a =>
      simp only [keepsChainWithin, keepsChain] at h ⊢
      cases hp : s.call a with
      | exchange c v =>
          simp only [hp, Option.any_eq_true, Bool.and_eq_true, decide_eq_true_eq] at h
          obtain ⟨r, hr, htree, hn⟩ := h
          exact fun _ _ _ => ⟨r, hr, htree, not_leadsTo_of_endsWithin hn⟩
      | _ => trivial
  | _ => trivial

/-- A root creates a child, the child creates another one and hands it to the
root, and the bodies and completions end in the order of creation, reversed. -/
def grandchildHandedOver : List (Action (Fin 1) (Fin 3)) :=
  .create 0 1 :: List.replicate 6 (.call (.inl 0)) ++
  .start 1 :: .create 1 2 :: List.replicate 6 (.call (.inl 1)) ++
  .start 2 :: .setOwner (.inl 0) 2 false :: List.replicate 7 (.call (.inl 0)) ++
  .finish 2 :: List.replicate 5 (.completion 2) ++
  .finish 1 :: List.replicate 5 (.completion 1) ++
  .finish 0 :: List.replicate 2 (.completion 0)

theorem syncTask_event_after_grandchild :
    ∃ s : State (Fin 1) (Fin 3), (system (Fin 1) (Fin 3)).Reach s ∧ s.eventSet 0 = true ∧
      s.inTree 0 2 ∧ (s.stage 2).hasStopped = true := by
  let M := (system (Fin 1) (Fin 3)).restrict fun s a => fewUnits s ∧ keepsChainWithin 0 3 s a = true
  obtain ⟨s, hr, hset, htree⟩ := StepSystem.Reach.exists_of_exec (M := M)
    (P := fun s => s.eventSet 0 = true ∧ s.inTree 0 2) (s := initial fun c => c = 0)
    (.start ⟨_, rfl⟩) grandchildHandedOver (by decide +kernel)
  have hw := hr.reachWhile
  exact ⟨s, hw.reach, hset, htree, syncTask_event_after_tree
    (hw.mono fun _ _ h => ⟨h.1, keepsChain_of_keepsChainWithin h.2⟩) hset 2 htree⟩

/-- Handles of the tree's coroutines are constructed and assigned by the tree's
coroutines, which never detach them. -/
def handlesInTree (root : Co) (s : State Thread Co) : Action Thread Co → Prop
  | .setOwner (.inl r) c clear => s.inTree root c → clear = false ∧ s.inTree root r
  | .setOwner (.inr _) c _ => ¬s.inTree root c
  | _ => True

instance (root : Co) (s : State Thread Co) :
    (a : Action Thread Co) → Decidable (handlesInTree root s a)
  | .setOwner (.inl r) c clear =>
      inferInstanceAs (Decidable (s.inTree root c → clear = false ∧ s.inTree root r))
  | .setOwner (.inr _) c _ => inferInstanceAs (Decidable (¬s.inTree root c))
  | .create .. | .start _ | .call _ | .finish _ | .discard _ | .completion _ => isTrue trivial

/-- A child assigns a handle of itself and becomes its own owner; the root
completes while the child's body runs. -/
def childOwnsItself : List (Action (Fin 1) (Fin 2)) :=
  .create 0 1 :: List.replicate 6 (.call (.inl 0)) ++
  .start 1 :: .setOwner (.inl 1) 1 false :: List.replicate 7 (.call (.inl 1)) ++
  .finish 0 :: List.replicate 2 (.completion 0)

theorem syncTask_event_before_child :
    ¬∀ s : State (Fin 1) (Fin 2),
      (system (Fin 1) (Fin 2)).ReachWhile (fun s a => fewUnits s ∧ handlesInTree 0 s a) s →
      s.eventSet 0 = true → ∀ c, s.inTree 0 c → (s.stage c).hasStopped = true := by
  intro h
  let M := (system (Fin 1) (Fin 2)).restrict fun s a => fewUnits s ∧ handlesInTree 0 s a
  obtain ⟨s, hr, hset, htree, hstage⟩ := StepSystem.Reach.exists_of_exec (M := M)
    (P := fun s => s.eventSet 0 = true ∧ s.inTree 0 1 ∧ s.stage 1 = .running)
    (s := initial fun c => c = 0) (.start ⟨_, rfl⟩) childOwnsItself (by decide)
  have hstop := h s hr.reachWhile hset 1 htree
  rw [hstage] at hstop
  cases hstop

end LevelzAsync.Ownership
