import LevelzAsync.AsyncMutexInvariant

/-!
# Safety of the asynchronous mutex

Every step keeps the custody invariant, so it holds in every reachable state.
Mutual exclusion and the absence of stranded waiters are read off from it.
-/

namespace LevelzAsync.AsyncMutex

variable {Thread Co : Type*} [DecidableEq Co]

section Coroutines

variable [Fintype Thread] {s s' : State Thread Co} {c : Co}

/-- A step that moves no call and no waiter. The owner word may be taken when it
is null, by a coroutine that is not unlocking. -/
theorem Inv.frame (hi : Inv s) (hcall : s'.call = s.call) (hlist : s'.waitList = s.waitList)
    (hwaits : ∀ d, s'.waits d = s.waits d) (hunlocks : ∀ d, s'.unlocks d = s.unlocks d)
    (howner : s'.owner = s.owner ∨
      s.owner = none ∧ ∃ c, s'.owner = some c ∧ s.co c ≠ .unlocking)
    (hmarks : ∀ d, s.coCancelled d = true → s'.coCancelled d = true)
    (hflagged : ∀ d, s'.owner ≠ some d → Flagged s' d)
    (hschedules : ∀ d, s'.schedules d = if s'.asked d = true ∧ s'.co d ≠ .waiting then 1 else 0)
    (hasked : ∀ d, s'.co d = .waiting → s'.asked d = true) : Inv s' where
  custody := fun d => by rw [hcall, hlist, hwaits, hi.custody d]
  unlocks := fun d => by rw [hcall, hunlocks, hi.unlocks d]
  owns := fun t d h => by
    rw [hcall] at h
    rcases howner with he | ⟨hn, _⟩
    · rw [he, hi.owns t d h]
    · rw [hi.owns t d h] at hn
      cases hn
  strange := fun t d h => by
    rw [hcall] at h
    rcases howner with he | ⟨_, c, he, hc⟩
    · rw [he]
      exact hi.strange t d h
    · rw [he]
      rintro ⟨rfl⟩
      exact hc (hi.unlocking_of_mem (Call.mem_unlocks_of_strange h))
  marked := fun t d h => hmarks d (hi.marked t d (hcall ▸ h))
  flagged := hflagged
  schedules := hschedules
  asked := hasked
  responsible := fun hn hw => by
    rw [hcall]
    rw [hlist] at hw
    rcases howner with he | ⟨_, c, he, _⟩
    · exact hi.responsible (he ▸ hn) hw
    · rw [he] at hn
      cases hn

theorem Inv.setFlags (hi : Inv s) {f g : Co → Bool}
    (hf : ∀ d, s.coCancelled d = true → f d = true)
    (hg : ∀ d, s.coAbandoned d = true → g d = true) :
    Inv { s with coCancelled := f, coAbandoned := g } :=
  hi.frame rfl rfl (fun _ => rfl) (fun _ => rfl) (.inl rfl) hf
    (fun d hd => (hi.flagged d hd).mono rfl (hf d) (hg d) id) hi.schedules hi.asked

theorem Inv.mark (hi : Inv s) (d : Co) : Inv (s.mark d) :=
  hi.setFlags (fun _ => State.mark_coCancelled) fun _ => id

theorem Inv.setAbandoned (hi : Inv s) (d : Co) :
    Inv { s with coAbandoned := Function.update s.coAbandoned d true } := by
  refine hi.setFlags (fun _ => id) fun e h => ?_
  by_cases he : e = d
  · subst he
    exact Function.update_self ..
  · rw [Function.update_of_ne he, h]

theorem Inv.acquire (hi : Inv s) (hn : s.owner = none) (hc : s.co c ≠ .unlocking) :
    Inv { s with owner := some c } := by
  refine hi.frame rfl rfl (fun _ => rfl) (fun _ => rfl) (.inr ⟨hn, c, rfl, hc⟩) (fun _ => id)
    (fun d _ => ?_) hi.schedules hi.asked
  exact (hi.flagged d (by simp [hn])).mono rfl id id id

/-- A coroutine that is about to await, or has a step in its await. -/
def CoPc.inAwait : CoPc → Bool
  | .waiting | .unlocking => false
  | _ => true

theorem Inv.goCo (hi : Inv s) {p : CoPc} (hold : (s.co c).inAwait = true) (hnew : p.inAwait = true)
    (hflag : s.owner ≠ some c → Flagged (s.goCo c p) c) : Inv (s.goCo c p) := by
  have hself : (s.goCo c p).co c = p := Function.update_self ..
  have hother : ∀ d, d ≠ c → (s.goCo c p).co d = s.co d := fun d hd => Function.update_of_ne hd ..
  have hw : s.co c ≠ .waiting := fun h => by simp [h, CoPc.inAwait] at hold
  have hw' : p ≠ .waiting := fun h => by simp [h, CoPc.inAwait] at hnew
  have hu : s.co c ≠ .unlocking := fun h => by simp [h, CoPc.inAwait] at hold
  have hu' : p ≠ .unlocking := fun h => by simp [h, CoPc.inAwait] at hnew
  refine hi.frame rfl rfl (fun d => ?_) (fun d => ?_) (.inl rfl) (fun _ => id)
    (fun d hd => ?_) (fun d => ?_) fun d hd => ?_ <;> by_cases hc : d = c
  · subst hc
    simp [State.waits, hself, hw, hw']
  · simp [State.waits, hother d hc]
  · subst hc
    simp [State.unlocks, hself, hu, hu']
  · simp [State.unlocks, hother d hc]
  · subst hc
    exact hflag hd
  · exact (hi.flagged d hd).mono (hother d hc) id id id
  · subst hc
    have hs := hi.schedules d
    rw [hself]
    simp only [ne_eq, hw, hw', not_false_eq_true, and_true] at hs ⊢
    exact hs
  · rw [hother d hc]
    exact hi.schedules d
  · subst hc
    exact absurd (hself.symm.trans hd) hw'
  · exact hi.asked d ((hother d hc).symm.trans hd)

theorem Inv.coStep (hi : Inv s) {mayChain spurious shutdown : Bool}
    (h : coStep s c mayChain spurious shutdown (s.co c) = some s') : Inv s' := by
  have hflag := hi.flagged c
  cases hp : s.co c <;> simp only [hp, AsyncMutex.coStep, Flagged] at h hflag
  case outside | callLock | waiting | holding | throwing | unlocking => cases h
  case tryCas =>
    have hu : s.co c ≠ .unlocking := by simp [hp]
    split at h
    next hn =>
      cases h
      split
      · exact hi.goCo (by rw [hp]; rfl) rfl fun _ => by simp [Flagged, State.goCo]
      · refine (hi.acquire hn hu).goCo (by rw [hp]; rfl) rfl fun ho => ?_
        exact absurd rfl ho
    next =>
      cases h
      exact hi.goCo (by rw [hp]; rfl) rfl fun _ => by simp [Flagged, State.goCo]
  case suspendMark | resumeMark =>
    cases h
    refine (hi.mark c).goCo (by rw [State.mark, hp]; rfl) rfl fun _ => ?_
    simp [Flagged, State.mark, State.goCo]
  case onResumeShutdown =>
    cases h
    split
    · refine (hi.mark c).goCo (by rw [State.mark, hp]; rfl) rfl fun _ => ?_
      simp [Flagged, State.goCo]
    · refine hi.goCo (by rw [hp]; rfl) rfl fun ho => ?_
      simpa [Flagged, State.goCo] using hflag ho
  case suspendCancelled =>
    cases h
    exact hi.goCo (by rw [hp]; rfl) rfl fun _ => by simp [Flagged, State.goCo]
  case suspendStatus isCancelled =>
    cases h
    refine hi.goCo (by rw [hp]; rfl) (by split_ifs <;> rfl) fun ho => ?_
    split_ifs with hc
    · have hmark := hc.2.symm.imp_left (hflag ho)
      rcases hmark with h | h <;> simp [Flagged, State.goCo, h]
    · simp [Flagged, State.goCo]
  all_goals
    cases h
    refine hi.goCo (by rw [hp]; rfl) (by split_ifs <;> rfl) fun ho => ?_
    split_ifs <;> simp_all [Flagged, State.goCo]

end Coroutines

section Calls

variable [DecidableEq Thread] [Fintype Thread] {s s' : State Thread Co} {t : Thread} {c : Co}
  {q : Call Co}

omit [DecidableEq Thread] in
theorem Inv.owner_of (hi : Inv s) (hp : s.call t = q) (h : q.owns = some c) :
    s.owner = some c := hi.owns t c (hp ▸ h)

omit [DecidableEq Thread] in
theorem Inv.cancelled_of (hi : Inv s) (hp : s.call t = q) :
    ∀ c ∈ q.marked, s.coCancelled c = true := fun c h => hi.marked t c (hp ▸ h)

omit [DecidableEq Thread] in
theorem Inv.waiting_of (hi : Inv s) (hp : s.call t = q) (h : c ∈ q.held) : s.co c = .waiting :=
  hi.waiting_of_held (hp ▸ h)

omit [DecidableEq Thread] in
theorem Inv.unlocking_of (hi : Inv s) (hp : s.call t = q) (h : c ∈ q.unlocks) :
    s.co c = .unlocking := hi.unlocking_of_mem (hp ▸ h)

/-- `lock` returns without having scheduled anybody. -/
theorem Inv.returnLock (hi : Inv s) {caller : Caller Co} (hp : s.call t = q)
    (hheld : q.held = caller.held) (hunlocks : q.unlocks = caller.unlocks)
    (hmarked : q.marked = caller.removes)
    (hresponsible : s.owner = none → s.waitList ≠ [] → q.responsible = false) :
    ∃ p, CallMoves s (s.returnLock t caller) t p := by
  cases caller with
  | awaiter =>
      exact ⟨.idle, .go hp hheld.symm hunlocks.symm nofun nofun nofun
        fun hn hw => .inr (hresponsible hn hw)⟩
  | unlock c =>
      have hc : s.co c = .unlocking := hi.unlocking_of hp (by simp [hunlocks, Caller.unlocks])
      exact ⟨.idle, .out hp hc hheld hunlocks hresponsible⟩
  | remove c removed =>
      have hc := hi.cancelled_of hp
      rw [hmarked] at hc
      cases removed with
      | false =>
          exact ⟨.idle, .go hp hheld.symm hunlocks.symm nofun nofun nofun
            fun hn hw => .inr (hresponsible hn hw)⟩
      | true =>
          exact ⟨.removeSchedule c, .go hp hheld.symm hunlocks.symm nofun nofun hc
            fun hn hw => .inr (hresponsible hn hw)⟩

/-- `lock` has made the coroutine the owner and schedules it. -/
theorem Inv.scheduleLock (hi : Inv s) {next : Co} {caller : Caller Co}
    (hp : s.call t = .lockSchedule next caller) :
    ∃ p, CallMoves s ((s.schedule next).returnLock t caller) t p := by
  have howner : s.owner = some next := hi.owner_of hp rfl
  have hmarked := hi.cancelled_of hp
  have hnext : s.co next = .waiting := hi.waiting_of hp List.mem_cons_self
  have hresponsible : s.owner = none → s.waitList ≠ [] → False := by simp [howner]
  cases caller with
  | awaiter =>
      exact ⟨.idle, .schedule hp hnext (.inl howner) (fun _ => rfl) rfl nofun rfl nofun
        fun hn hw => (hresponsible hn hw).elim⟩
  | unlock c =>
      have hc : s.co c = .unlocking := hi.unlocking_of hp (List.mem_singleton_self c)
      exact ⟨.idle, .scheduleOut hp hnext (.inl howner) hc rfl rfl rfl⟩
  | remove c removed =>
      cases removed with
      | false =>
          exact ⟨.idle, .schedule hp hnext (.inl howner) (fun _ => rfl) rfl nofun rfl nofun
            fun hn hw => (hresponsible hn hw).elim⟩
      | true =>
          exact ⟨.removeSchedule c, .schedule hp hnext (.inl howner) (fun _ => rfl) rfl nofun rfl
            hmarked fun hn hw => (hresponsible hn hw).elim⟩

theorem Inv.lock_moves (hi : Inv s) {spurious : Bool} {bound : ℕ} {next : Co} {caller : Caller Co}
    (hp : s.call t = .lockCas next caller)
    (h : callStep s t spurious bound (.lockCas next caller) = some s') :
    ∃ p, CallMoves s s' t p := by
  have hmarked := hi.cancelled_of hp
  cases h
  split
  next hn =>
    split
    · exact ⟨_, .go hp rfl rfl nofun nofun hmarked fun _ _ => .inl rfl⟩
    · exact ⟨_, .setOwner hp (.take hn List.mem_cons_self rfl) rfl rfl (fun c hc => hc) rfl hmarked
        nofun⟩
  next hn =>
    exact ⟨_, .go hp rfl rfl nofun nofun hmarked fun h => absurd h hn⟩

theorem Inv.drain_moves (hi : Inv s) {spurious : Bool} {bound : ℕ} {drain : Drain Co}
    (hp : s.call t = .drainDequeue drain)
    (h : callStep s t spurious bound (.drainDequeue drain) = some s') :
    ∃ p, CallMoves s s' t p := by
  cases h
  cases hlist : s.waitList with
  | cons next rest =>
      refine ⟨.drainMark drain next, .pop hp hlist ?_ rfl ?_ rfl nofun ?_⟩
      · cases drain <;> rfl
      · cases drain <;> exact fun c hc => hi.owner_of hp hc
      · cases drain <;> simp [Call.responsible]
  | nil =>
      cases drain with
      | owned c =>
          exact ⟨.unlockRelease c, .go hp rfl rfl (fun c hc => hi.owner_of hp hc) nofun nofun
            fun _ hw => absurd hlist hw⟩
      | released c =>
          have hc : s.co c = .unlocking := hi.unlocking_of hp (List.mem_singleton_self c)
          exact ⟨.idle, .out hp hc rfl rfl fun _ hw => absurd hlist hw⟩
      | cancel => exact ⟨.idle, .go hp rfl rfl nofun nofun nofun fun _ hw => absurd hlist hw⟩

theorem Inv.remove_moves (hi : Inv s) {spurious : Bool} {bound : ℕ} {left : ℕ}
    (hp : s.call t = .removeDequeue c left)
    (h : callStep s t spurious bound (.removeDequeue c left) = some s') :
    ∃ p, CallMoves s s' t p := by
  have hmarked := hi.cancelled_of hp
  cases h
  cases left with
  | zero => exact ⟨_, .go hp rfl rfl nofun nofun hmarked fun _ _ => .inl rfl⟩
  | succ left =>
      cases hlist : s.waitList with
      | nil => exact ⟨_, .go hp rfl rfl nofun nofun hmarked fun _ _ => .inl rfl⟩
      | cons node rest =>
          by_cases hc : node = c
          · subst hc
            simp only [if_true]
            exact ⟨_, .pop hp hlist rfl rfl nofun rfl hmarked fun _ => .inl rfl⟩
          · simp only [if_neg hc]
            exact ⟨_, .pop hp hlist rfl rfl nofun rfl hmarked fun _ => .inl rfl⟩

theorem Inv.callMoves (hi : Inv s) {spurious : Bool} {bound : ℕ}
    (h : callStep s t spurious bound (s.call t) = some s') : ∃ p, CallMoves s s' t p := by
  cases hp : s.call t with
  | idle => simp [hp, callStep] at h
  | lockLoad next caller =>
      have hmarked := hi.cancelled_of hp
      rw [hp] at h
      cases h
      split
      next => exact ⟨_, .go hp rfl rfl nofun nofun hmarked fun _ _ => .inl rfl⟩
      next => exact ⟨_, .go hp rfl rfl nofun nofun hmarked fun _ _ => .inl rfl⟩
  | lockEnqueue next caller =>
      have hmarked := hi.cancelled_of hp
      rw [hp] at h
      cases h
      exact ⟨_, .push hp rfl rfl rfl rfl hmarked rfl⟩
  | lockReload caller =>
      have hmarked := hi.cancelled_of hp
      rw [hp] at h
      cases h
      split
      next => exact ⟨_, .go hp rfl rfl nofun nofun hmarked fun _ _ => .inl rfl⟩
      next hn => exact hi.returnLock hp rfl rfl rfl fun h => absurd h hn
  | lockDequeue caller =>
      have hmarked := hi.cancelled_of hp
      rw [hp] at h
      cases h
      cases hlist : s.waitList with
      | cons next rest => exact ⟨_, .pop hp hlist rfl rfl nofun rfl hmarked fun _ => .inl rfl⟩
      | nil => exact hi.returnLock hp rfl rfl rfl fun _ hw => absurd hlist hw
  | lockCas next caller => exact hi.lock_moves hp (hp ▸ h)
  | lockSchedule next caller =>
      rw [hp] at h
      cases h
      exact hi.scheduleLock hp
  | unlockLoad c =>
      rw [hp] at h
      cases h
      split
      next ho =>
        exact ⟨_, .go hp rfl rfl (by rintro _ ⟨⟩; exact ho) nofun nofun fun _ _ => .inr rfl⟩
      next ho =>
        exact ⟨_, .go hp rfl rfl nofun (by rintro _ ⟨⟩; exact ho) nofun fun _ _ => .inr rfl⟩
  | unlockStranger c =>
      have hs := hi.strange t
      have hc : s.co c = .unlocking := hi.unlocking_of hp (List.mem_singleton_self c)
      rw [hp] at h hs
      cases h
      split
      · exact ⟨_, .go hp rfl rfl nofun hs nofun fun _ _ => .inr rfl⟩
      · exact ⟨_, .out hp hc rfl rfl fun _ _ => rfl⟩
  | unlockMarkStranger c =>
      have hc : s.co c = .unlocking := hi.unlocking_of hp (List.mem_singleton_self c)
      rw [hp] at h
      cases h
      exact ⟨_, .of_mark (.out hp hc rfl rfl fun _ _ => rfl)⟩
  | unlockCancelled c =>
      have ho := fun d => hi.owner_of (c := d) hp
      rw [hp] at h
      cases h
      split
      · exact ⟨_, .go hp rfl rfl ho nofun nofun fun _ _ => .inr rfl⟩
      · exact ⟨_, .go hp rfl rfl ho nofun nofun fun _ _ => .inr rfl⟩
  | unlockMark c =>
      have ho := fun d => hi.owner_of (c := d) hp
      rw [hp] at h
      cases h
      exact ⟨_, .of_mark (.go hp rfl rfl ho nofun nofun fun _ _ => .inr rfl)⟩
  | unlockRelease c =>
      rw [hp] at h
      cases h
      exact ⟨_, .setOwner hp (.leave rfl (List.mem_singleton_self c) rfl) rfl rfl nofun rfl nofun
        fun _ => rfl⟩
  | unlockDequeue c =>
      have ho := fun d => hi.owner_of (c := d) hp
      rw [hp] at h
      cases h
      cases hlist : s.waitList with
      | cons next rest => exact ⟨_, .pop hp hlist rfl rfl ho rfl nofun fun _ => .inr rfl⟩
      | nil => exact ⟨_, .go hp rfl rfl ho nofun nofun fun _ hw => absurd hlist hw⟩
  | unlockClear c =>
      rw [hp] at h
      cases h
      exact ⟨_, .setOwner hp (.leave rfl (List.mem_singleton_self c) rfl) rfl rfl nofun rfl nofun
        fun _ => rfl⟩
  | unlockDequeueAgain c =>
      have hc : s.co c = .unlocking := hi.unlocking_of hp (List.mem_singleton_self c)
      rw [hp] at h
      cases h
      cases hlist : s.waitList with
      | cons next rest => exact ⟨_, .pop hp hlist rfl rfl nofun rfl nofun fun _ => .inl rfl⟩
      | nil => exact ⟨_, .out hp hc rfl rfl fun _ hw => absurd hlist hw⟩
  | handOff c next =>
      rw [hp] at h
      cases h
      exact ⟨_, .setOwner hp
        (.pass rfl (List.mem_singleton_self c) (List.mem_singleton_self next) rfl)
        rfl rfl (fun _ => id) rfl nofun nofun⟩
  | handSchedule c next =>
      have ho : s.owner = some next := hi.owner_of hp rfl
      have hnext : s.co next = .waiting := hi.waiting_of hp (List.mem_singleton_self next)
      have hc : s.co c = .unlocking := hi.unlocking_of hp (List.mem_singleton_self c)
      rw [hp] at h
      cases h
      exact ⟨_, .scheduleOut hp hnext (.inl ho) hc rfl rfl rfl⟩
  | drainDequeue drain => exact hi.drain_moves hp (hp ▸ h)
  | drainMark drain next =>
      have ho := fun d => hi.owner_of (c := d) hp
      rw [hp] at h
      cases h
      refine ⟨_, .of_mark (.go hp rfl rfl ?_ nofun ?_ ?_)⟩
      · cases drain <;> exact ho
      · intro c hc
        rw [List.mem_singleton.mp hc]
        exact Function.update_self ..
      · cases drain with
        | owned c => exact fun _ _ => .inr rfl
        | released c => exact fun _ _ => .inl rfl
        | cancel => exact fun _ _ => .inr rfl
  | drainSchedule drain next =>
      have ho := fun d => hi.owner_of (c := d) hp
      have hnext : s.co next = .waiting := hi.waiting_of hp (List.mem_singleton_self next)
      have hmark := hi.cancelled_of hp next (List.mem_singleton_self next)
      rw [hp] at h
      cases h
      refine ⟨_, .schedule hp hnext (.inr hmark) (fun _ => rfl) rfl ?_ rfl nofun ?_⟩
      · cases drain <;> exact ho
      · cases drain with
        | owned c => exact fun _ _ => .inr rfl
        | released c => exact fun _ _ => .inl rfl
        | cancel => exact fun _ _ => .inr rfl
  | cancelMark =>
      rw [hp] at h
      cases h
      exact ⟨_, CallMoves.of_flags (.go hp rfl rfl nofun nofun nofun fun _ _ => .inr rfl)
        (fun _ => id) fun _ => rfl⟩
  | removeCount c =>
      have hmarked := hi.cancelled_of hp
      rw [hp] at h
      cases h
      exact ⟨_, .go hp rfl rfl nofun nofun hmarked fun _ _ => .inl rfl⟩
  | removeDequeue c left => exact hi.remove_moves hp (hp ▸ h)
  | removeEnqueue c node left =>
      have hmarked := hi.cancelled_of hp
      rw [hp] at h
      cases h
      exact ⟨_, .push hp rfl rfl rfl rfl hmarked rfl⟩
  | removeCheckOwner c removed =>
      have hmarked := hi.cancelled_of hp
      rw [hp] at h
      cases h
      split
      next =>
        exact ⟨_, .go hp (by cases removed <;> rfl) rfl nofun nofun hmarked fun _ _ => .inl rfl⟩
      next hn =>
        cases removed with
        | false => exact ⟨_, .go hp rfl rfl nofun nofun nofun fun h => absurd h hn⟩
        | true => exact ⟨_, .go hp rfl rfl nofun nofun hmarked fun h => absurd h hn⟩
  | removeDequeueNext c removed =>
      have hmarked := hi.cancelled_of hp
      rw [hp] at h
      cases h
      cases hlist : s.waitList with
      | cons next rest =>
          exact ⟨_, .pop hp hlist (by cases removed <;> rfl) rfl nofun rfl hmarked
            fun _ => .inl rfl⟩
      | nil =>
        cases removed with
        | false => exact ⟨_, .go hp rfl rfl nofun nofun nofun fun _ hw => absurd hlist hw⟩
        | true => exact ⟨_, .go hp rfl rfl nofun nofun hmarked fun _ hw => absurd hlist hw⟩
  | removeSchedule c =>
      have hmarked := hi.cancelled_of hp
      have hc : s.co c = .waiting := hi.waiting_of hp (List.mem_singleton_self c)
      rw [hp] at h
      cases h
      exact ⟨_, .schedule hp hc (.inr (hmarked c (List.mem_singleton_self c))) (fun _ => rfl) rfl
        nofun rfl nofun fun _ _ => .inr rfl⟩

theorem Inv.enter (hi : Inv s) {p : Call Co} (hidle : s.call t = .idle)
    (hcall : s'.call = Function.update s.call t p) (hlist : s'.waitList = s.waitList)
    (howner : s'.owner = s.owner) (hmarks : s'.coCancelled = s.coCancelled)
    (hcustody : ∀ d, p.held.count d + s.waits d = s'.waits d)
    (hunlocks : ∀ d, p.unlocks.count d + s.unlocks d = s'.unlocks d)
    (howns : p.owns = none) (hstrange : p.strange = none) (hmarked : p.marked = [])
    (hflagged : ∀ d, s'.owner ≠ some d → Flagged s' d)
    (hschedules : ∀ d, s'.schedules d = if s'.asked d = true ∧ s'.co d ≠ .waiting then 1 else 0)
    (hasked : ∀ d, s'.co d = .waiting → s'.asked d = true) : Inv s' := by
  have hself : s'.call t = p := by rw [hcall, Function.update_self]
  have hother : ∀ u, u ≠ t → s'.call u = s.call u := fun u hu => by
    rw [hcall, Function.update_of_ne hu]
  refine
    { custody := fun d => ?_
      unlocks := fun d => ?_
      owns := fun u d h => ?_
      strange := fun u d h => ?_
      marked := fun u d h => ?_
      flagged := hflagged
      schedules := hschedules
      asked := hasked
      responsible := fun hn hw => ?_ }
  · have hsum := sum_update_tally s.call (fun p => p.held.count d) t p
    have hold := hi.custody d
    have hstep := hcustody d
    simp only [hidle, Call.held_idle, List.count_nil] at hsum
    rw [hcall, hlist]
    omega
  · have hsum := sum_update_tally s.call (fun p => p.unlocks.count d) t p
    have hold := hi.unlocks d
    have hstep := hunlocks d
    simp only [hidle, Call.unlocks_idle, List.count_nil] at hsum
    rw [hcall]
    omega
  · by_cases hu : u = t
    · subst hu
      simp [hself, howns] at h
    · rw [howner, hi.owns u d (hother u hu ▸ h)]
  · by_cases hu : u = t
    · subst hu
      simp [hself, hstrange] at h
    · rw [howner]
      exact hi.strange u d (hother u hu ▸ h)
  · by_cases hu : u = t
    · subst hu
      simp [hself, hmarked] at h
    · rw [hmarks]
      exact hi.marked u d (hother u hu ▸ h)
  · obtain ⟨u, hr⟩ := hi.responsible (howner ▸ hn) (hlist ▸ hw)
    have hu : u ≠ t := by
      rintro rfl
      rw [hidle] at hr
      cases hr
    exact ⟨u, by rw [hother u hu, hr]⟩

omit [DecidableEq Thread] in
theorem Inv.await (hi : Inv s) (hc : s.co c = .outside) : Inv (s.goCo c .readyAbandoned) :=
  hi.goCo (by rw [hc]; rfl) rfl fun _ => by simp [Flagged, State.goCo]

theorem Inv.lock (hi : Inv s) (hc : s.co c = .callLock) (hidle : s.call t = .idle) :
    Inv { (s.goCo c .waiting).goCall t (.lockLoad c .awaiter) with
      asked := Function.update s.asked c true
      schedules := Function.update s.schedules c 0 } := by
  refine hi.enter hidle rfl rfl rfl rfl (fun d => ?_) (fun d => ?_) rfl rfl rfl (fun d hd => ?_)
    (fun d => ?_) fun d hd => ?_ <;> by_cases hdc : d = c
  · subst hdc
    simp [Call.held, Caller.held, State.waits, State.goCo, State.goCall, hc]
  · simp [Call.held, Caller.held, State.waits, State.goCo, State.goCall, hdc, Ne.symm hdc]
  · subst hdc
    simp [Call.unlocks, Caller.unlocks, State.unlocks, State.goCo, State.goCall, hc]
  · simp [Call.unlocks, Caller.unlocks, State.unlocks, State.goCo, State.goCall, hdc]
  · subst hdc
    simp [Flagged, State.goCo, State.goCall]
  · exact (hi.flagged d hd).mono (Function.update_of_ne hdc ..) id id id
  · subst hdc
    simp [State.goCo, State.goCall]
  · simpa [State.goCo, State.goCall, Function.update_of_ne hdc] using hi.schedules d
  · subst hdc
    exact Function.update_self ..
  · have hold := hi.asked d ((Function.update_of_ne hdc ..).symm.trans hd)
    simpa [Function.update_of_ne hdc] using hold

theorem Inv.unlock (hi : Inv s) (hc : s.co c = .holding ∨ s.co c = .throwing)
    (hidle : s.call t = .idle) :
    Inv ((s.goCo c .unlocking).goCall t (.unlockLoad c)) := by
  have hw : s.co c ≠ .waiting := by rcases hc with hc | hc <;> simp [hc]
  have hu : s.co c ≠ .unlocking := by rcases hc with hc | hc <;> simp [hc]
  refine hi.enter hidle rfl rfl rfl rfl (fun d => ?_) (fun d => ?_) rfl rfl rfl (fun d hd => ?_)
    (fun d => ?_) fun d hd => ?_ <;> by_cases hdc : d = c
  · subst hdc
    simp [Call.held, State.waits, State.goCo, State.goCall, hw]
  · simp [Call.held, State.waits, State.goCo, State.goCall, hdc]
  · subst hdc
    simp [Call.unlocks, State.unlocks, State.goCo, State.goCall, hu]
  · simp [Call.unlocks, State.unlocks, State.goCo, State.goCall, hdc, Ne.symm hdc]
  · subst hdc
    simp [Flagged, State.goCo, State.goCall]
  · exact (hi.flagged d hd).mono (Function.update_of_ne hdc ..) id id id
  · subst hdc
    simpa [State.goCo, State.goCall, hw] using hi.schedules d
  · simpa [State.goCo, State.goCall, Function.update_of_ne hdc] using hi.schedules d
  · subst hdc
    simp [State.goCo, State.goCall] at hd
  · exact hi.asked d ((Function.update_of_ne hdc ..).symm.trans hd)

theorem Inv.step (hi : Inv s) {a : Action Thread Co} (ha : step s a = some s') : Inv s' := by
  cases a with
  | await c =>
      obtain ⟨hc, ha⟩ := Option.ite_none_right_eq_some.mp ha
      cases ha
      exact hi.await hc
  | co c mayChain spurious shutdown => exact hi.coStep ha
  | lock c t =>
      obtain ⟨⟨hc, ht⟩, ha⟩ := Option.ite_none_right_eq_some.mp ha
      cases ha
      exact hi.lock hc ht
  | unlock c t =>
      obtain ⟨⟨hc, ht⟩, ha⟩ := Option.ite_none_right_eq_some.mp ha
      cases ha
      exact hi.unlock hc ht
  | setCancelled c =>
      cases ha
      exact hi.mark c
  | setAbandoned c =>
      cases ha
      exact hi.setAbandoned c
  | cancel t =>
      obtain ⟨ht, ha⟩ := Option.ite_none_right_eq_some.mp ha
      cases ha
      exact hi.call_step (.go ht rfl rfl nofun nofun nofun fun _ _ => .inr rfl)
  | remove c t =>
      obtain ⟨⟨hc, ht⟩, ha⟩ := Option.ite_none_right_eq_some.mp ha
      cases ha
      exact hi.call_step (.go ht rfl rfl nofun nofun (by simpa [Call.marked] using hc)
        fun _ _ => .inr rfl)
  | call t spurious bound =>
      obtain ⟨p, hm⟩ := hi.callMoves ha
      exact hi.call_step hm

omit [DecidableEq Thread] in
theorem inv_initial (coCancelled coAbandoned : Co → Bool) :
    Inv (initial coCancelled coAbandoned : State Thread Co) where
  custody := fun c => by simp [initial, State.waits]
  unlocks := fun c => by simp [initial, State.unlocks]
  owns := nofun
  strange := nofun
  marked := nofun
  flagged := fun c _ => trivial
  schedules := fun c => rfl
  asked := nofun
  responsible := fun _ h => absurd rfl h

theorem inv_of_reach (hs : (system Thread Co).Reach s) : Inv s := by
  refine hs.invariant (fun s h => ?_) fun s a s' hi ha => hi.step ha
  obtain ⟨coCancelled, coAbandoned, rfl⟩ := h
  exact inv_initial coCancelled coAbandoned

end Calls

def CoPc.inResume : CoPc → Bool
  | .resumeCancelled | .resumeMutex | .resumeMark | .onResumeShutdown | .onResumeAbandoned
  | .onResumeCancelled => true
  | _ => false

def CoPc.isStranger : CoPc → Bool
  | .throwing | .unlocking | .outside => true
  | p => p.inResume

/-- The part of `unlock` that a coroutine goes through that is not the owner. -/
def Call.isStranger : Call Co → Bool
  | .unlockLoad _ | .unlockStranger _ | .unlockMarkStranger _ => true
  | _ => false

/-- A coroutine that came back from the mutex without being its owner. -/
structure Stranger (s : State Thread Co) (c : Co) : Prop where
  co : (s.co c).isStranger = true
  owner : s.owner ≠ some c
  call : ∀ t, c ∈ (s.call t).unlocks → (s.call t).isStranger = true

section Strangers

variable [DecidableEq Thread] [Fintype Thread] {s s' : State Thread Co} {t : Thread} {c : Co}

omit [DecidableEq Co] [DecidableEq Thread] [Fintype Thread] in
theorem CoPc.isStranger_of_inResume {p : CoPc} (h : p.inResume = true) : p.isStranger = true := by
  cases p <;> simp_all [CoPc.isStranger, CoPc.inResume]

omit [Fintype Thread] in
theorem Stranger.unlock_step (h : Stranger s c) (hc : c ∈ (s.call t).unlocks) {spurious : Bool}
    {bound : ℕ} (ha : callStep s t spurious bound (s.call t) = some s') :
    s'.owner = s.owner ∧ ((s'.call t).isStranger = true ∨ s'.call t = .idle) := by
  have howner := h.owner
  have hstrange := h.call t hc
  cases hp : s.call t <;>
    simp only [hp, Call.isStranger, Call.unlocks, callStep, reduceCtorEq, List.mem_singleton]
      at ha hc hstrange
  case unlockLoad =>
    cases ha
    rw [← hc, if_neg howner]
    simp [State.goCall, Call.isStranger]
  case unlockStranger =>
    cases ha
    split <;> simp [State.goCall, State.goCo, Call.isStranger]
  case unlockMarkStranger =>
    cases ha
    simp [State.goCall, State.goCo, State.mark]

omit [DecidableEq Thread] [Fintype Thread] in
/-- The owner word is taken by the coroutine that steps or by none. -/
theorem coStep_other {mayChain spurious shutdown : Bool} {d : Co} (hd : c ≠ d)
    (h : coStep s d mayChain spurious shutdown (s.co d) = some s') :
    s'.co c = s.co c ∧ s'.call = s.call ∧ (s'.owner = s.owner ∨ s'.owner = some d) := by
  have hco : ∀ (r : State Thread Co) p, (r.goCo d p).co c = r.co c := fun _ _ =>
    Function.update_of_ne hd ..
  cases hp : s.co d <;> simp only [hp, AsyncMutex.coStep, reduceCtorEq] at h
  case tryCas =>
    split at h <;> cases h
    · split
      · exact ⟨hco .., rfl, .inl rfl⟩
      · exact ⟨hco .., rfl, .inr rfl⟩
    · exact ⟨hco .., rfl, .inl rfl⟩
  case onResumeShutdown =>
    cases h
    split <;> exact ⟨hco .., rfl, .inl rfl⟩
  all_goals
    cases h
    exact ⟨hco .., rfl, .inl rfl⟩

omit [DecidableEq Thread] [Fintype Thread] in
theorem coStep_stranger {mayChain spurious shutdown : Bool} (hc : (s.co c).isStranger = true)
    (h : coStep s c mayChain spurious shutdown (s.co c) = some s') :
    s'.owner = s.owner ∧ s'.call = s.call ∧
      ((s'.co c).inResume = true ∨ s'.co c = .throwing ∨ s'.co c = .holding) := by
  cases hp : s.co c <;>
    simp only [hp, AsyncMutex.coStep, CoPc.isStranger, CoPc.inResume, reduceCtorEq] at h hc
  case onResumeShutdown =>
    cases h
    split <;> exact ⟨rfl, rfl, by simp [State.goCo, CoPc.inResume]⟩
  all_goals
    cases h
    refine ⟨rfl, rfl, ?_⟩
    simp only [State.goCo, Function.update_self]
    try split_ifs
    all_goals simp [CoPc.inResume]

theorem Stranger.callStep (h : Stranger s c) (hi : Inv s) {spurious : Bool} {bound : ℕ}
    (ha : callStep s t spurious bound (s.call t) = some s') : Stranger s' c := by
  have hwait : s.co c ≠ .waiting := fun hw => by
    simpa [hw, CoPc.isStranger, CoPc.inResume] using h.co
  obtain ⟨p, hm⟩ := hi.callMoves ha
  have hheld : ∀ d ∈ (s.call t).held, d ≠ c := by
    rintro d hd rfl
    exact hwait (hi.waiting_of_held hd)
  refine ⟨?_, ?_, fun u hu => ?_⟩
  · cases hm.co c with
    | same hco _ => rw [hco, h.co]
    | scheduled hw _ _ _ => exact absurd hw hwait
    | unlocked _ hco _ => rw [hco]; rfl
  · cases hm.owner with
    | same he => rw [he]; exact h.owner
    | take _ hd he | pass _ _ hd he =>
        rw [he, Ne, Option.some.injEq]
        exact hheld _ hd
    | leave _ _ he => rw [he]; exact nofun
  · by_cases ht : u = t
    · subst ht
      by_cases hmem : c ∈ (s.call u).unlocks
      · refine (h.unlock_step hmem ha).2.resolve_right fun hidle => ?_
        simp [hidle] at hu
      · have hcount := hm.unlocks c
        have hpos : 0 < (s'.call u).unlocks.count c := List.count_pos_iff.mpr hu
        rw [hm.call, Function.update_self] at hpos
        rw [List.count_eq_zero_of_not_mem hmem] at hcount
        cases hm.co c with
        | same hco _ =>
            rw [State.unlocks, State.unlocks, hco] at hcount
            omega
        | scheduled hw _ _ _ => exact absurd hw hwait
        | unlocked hold hco _ => simp [State.unlocks, hold, hco] at hcount
    · have hsame : s'.call u = s.call u := by rw [hm.call, Function.update_of_ne ht]
      rw [hsame] at hu ⊢
      exact h.call u hu

omit [DecidableEq Co] [Fintype Thread] in
theorem Stranger.enter (h : Stranger s c) {p : Call Co} (hco : (s'.co c).isStranger = true)
    (howner : s'.owner = s.owner) (hcall : s'.call = Function.update s.call t p)
    (hp : c ∈ p.unlocks → p.isStranger = true) : Stranger s' c := by
  refine ⟨hco, howner ▸ h.owner, fun u hu => ?_⟩
  rw [hcall] at hu ⊢
  by_cases ht : u = t
  · subst ht
    rw [Function.update_self] at hu ⊢
    exact hp hu
  · rw [Function.update_of_ne ht] at hu ⊢
    exact h.call u hu

omit [DecidableEq Thread] [Fintype Thread] in
theorem Stranger.co_other (h : Stranger s c) {d : Co} (p : CoPc) (hd : c ≠ d) :
    ((s.goCo d p).co c).isStranger = true := by
  rw [show (s.goCo d p).co c = s.co c from Function.update_of_ne hd ..]
  exact h.co

theorem Stranger.step (h : Stranger s c) (hi : Inv s) {a : Action Thread Co}
    (hne : a ≠ .await c) (ha : step s a = some s') : Stranger s' c := by
  have hi' := hi.step ha
  cases a with
  | await d =>
      obtain ⟨_, ha⟩ := Option.ite_none_right_eq_some.mp ha
      cases ha
      exact ⟨h.co_other _ fun hd => hne (hd ▸ rfl), h.owner, h.call⟩
  | co d mayChain spurious shutdown =>
      by_cases hd : c = d
      · subst hd
        obtain ⟨howner, hcall, hco⟩ := coStep_stranger h.co ha
        refine ⟨?_, howner ▸ h.owner, hcall ▸ h.call⟩
        rcases hco with hco | hco | hco
        · exact CoPc.isStranger_of_inResume hco
        · rw [hco]
          rfl
        · have hflag := hi'.flagged c (howner ▸ h.owner)
          unfold Flagged at hflag
          rw [hco] at hflag
          exact hflag.elim
      · obtain ⟨hco, hcall, howner⟩ := coStep_other hd ha
        refine ⟨hco ▸ h.co, ?_, hcall ▸ h.call⟩
        rcases howner with he | he <;> rw [he]
        · exact h.owner
        · simpa using Ne.symm hd
  | lock d t =>
      obtain ⟨⟨hd, _⟩, ha⟩ := Option.ite_none_right_eq_some.mp ha
      cases ha
      have hcd : c ≠ d := by
        rintro rfl
        have hco := h.co
        rw [hd] at hco
        cases hco
      exact h.enter (h.co_other _ hcd) rfl rfl nofun
  | unlock d t =>
      obtain ⟨_, ha⟩ := Option.ite_none_right_eq_some.mp ha
      cases ha
      refine h.enter ?_ rfl rfl fun _ => rfl
      by_cases hcd : c = d
      · subst hcd
        change CoPc.isStranger (Function.update s.co c .unlocking c) = true
        rw [Function.update_self]
        rfl
      · exact h.co_other _ hcd
  | setCancelled d | setAbandoned d =>
      cases ha
      exact ⟨h.co, h.owner, h.call⟩
  | cancel t | remove d t =>
      obtain ⟨_, ha⟩ := Option.ite_none_right_eq_some.mp ha
      cases ha
      exact h.enter h.co rfl rfl nofun
  | call t spurious bound => exact h.callStep hi ha

theorem Stranger.exec (h : Stranger s c) (hs : (system Thread Co).Reach s)
    {as : List (Action Thread Co)} (hne : ∀ a ∈ as, a ≠ .await c)
    (he : (system Thread Co).exec s as = some s') : Stranger s' c := by
  induction as generalizing s with
  | nil =>
      obtain rfl : s = s' := by simpa only [StepSystem.exec_nil, Option.some.injEq] using he
      exact h
  | cons a as ih =>
      rw [StepSystem.exec_cons, Option.bind_eq_some_iff] at he
      obtain ⟨s₁, h₁, h₂⟩ := he
      rw [List.forall_mem_cons] at hne
      exact ih (h.step (inv_of_reach hs) hne.1 h₁) (hs.step h₁) hne.2 h₂

omit [DecidableEq Thread] in
theorem Inv.stranger (hi : Inv s) (hc : (s.co c).inResume = true) (ho : s.owner ≠ some c) :
    Stranger s c := by
  refine ⟨CoPc.isStranger_of_inResume hc, ho, fun t ht => ?_⟩
  rw [hi.unlocking_of_mem ht] at hc
  cases hc

theorem Stranger.resume_step (h : Stranger s c) (hi : Inv s) (hc : (s.co c).inResume = true)
    {a : Action Thread Co} (ha : (system Thread Co).step s a = some s') :
    (s'.co c).inResume = true ∨ s'.co c = .throwing := by
  have hother : ∀ {d} p, c ≠ d → ((s.goCo d p).co c).inResume = true := fun p hd => by
    simp only [State.goCo, Function.update_of_ne hd, hc]
  have hne : ∀ {d p}, s.co d = p → p.inResume = false → c ≠ d := by
    rintro d p hd hp rfl
    simp [hd, hp] at hc
  cases a with
  | await d =>
      obtain ⟨hd, ha⟩ := Option.ite_none_right_eq_some.mp ha
      cases ha
      exact .inl (hother _ (hne hd rfl))
  | co d mayChain spurious shutdown =>
      by_cases hd : c = d
      · subst hd
        obtain ⟨howner, _, hco⟩ := coStep_stranger h.co ha
        refine hco.imp_right fun hco => hco.resolve_right fun hhold => ?_
        have hi' : Inv s' := hi.step (a := .co c mayChain spurious shutdown) ha
        have hflag := hi'.flagged c (howner ▸ h.owner)
        simp [Flagged, hhold] at hflag
      · rw [(coStep_other hd ha).1]
        exact .inl hc
  | lock d t =>
      obtain ⟨⟨hd, _⟩, ha⟩ := Option.ite_none_right_eq_some.mp ha
      cases ha
      exact .inl (hother _ (hne hd rfl))
  | unlock d t =>
      obtain ⟨⟨hd, _⟩, ha⟩ := Option.ite_none_right_eq_some.mp ha
      cases ha
      rcases hd with hd | hd <;> exact .inl (hother _ (hne hd rfl))
  | setCancelled d | setAbandoned d =>
      cases ha
      exact .inl hc
  | cancel t | remove d t =>
      obtain ⟨_, ha⟩ := Option.ite_none_right_eq_some.mp ha
      cases ha
      exact .inl hc
  | call t spurious bound =>
      obtain ⟨p, hm⟩ := hi.callMoves ha
      cases hm.co c with
      | same hco _ => exact .inl (hco ▸ hc)
      | scheduled hw _ _ _ | unlocked hw _ _ =>
          rw [hw] at hc
          cases hc

/-- Mutual exclusion, for every number of coroutines and threads and every
interleaving: a coroutine that holds the mutex is the one in the owner word. A
coroutine that comes back to `await_resume` without being the owner does neither
become the owner nor hold the mutex before it awaits again: it leaves
`await_resume` by the throw, and its `unlock` leaves the owner word alone. -/
theorem asyncMutex_mutual_exclusion (hs : (system Thread Co).Reach s) :
    (∀ c d, s.co c = .holding → s.co d = .holding → c = d) ∧
    (∀ c, s.co c = .holding → s.owner = some c) ∧
    ∀ c, (s.co c).inResume = true → s.owner ≠ some c →
      ∀ as s', (∀ a ∈ as, a ≠ .await c) → (system Thread Co).exec s as = some s' →
        s'.owner ≠ some c ∧ s'.co c ≠ .holding ∧
        (∀ a s'', (s'.co c).inResume = true → (system Thread Co).step s' a = some s'' →
          (s''.co c).inResume = true ∨ s''.co c = .throwing) ∧
        ∀ t spurious bound s'', c ∈ (s'.call t).unlocks →
          (system Thread Co).step s' (.call t spurious bound) = some s'' →
          s''.owner = s'.owner := by
  have hi := inv_of_reach hs
  have howner : ∀ c, s.co c = .holding → s.owner = some c := fun c hc => by
    by_contra ho
    have hflag := hi.flagged c ho
    simp [Flagged, hc] at hflag
  refine ⟨fun c d hc hd => ?_, howner, fun c hc ho as s' hne he => ?_⟩
  · have h := (howner c hc).symm.trans (howner d hd)
    exact Option.some.inj h
  · have hstranger := (hi.stranger hc ho).exec hs hne he
    have hi' := inv_of_reach (hs.exec he)
    refine ⟨hstranger.owner, fun hhold => ?_, fun a s'' hr ha => hstranger.resume_step hi' hr ha,
      fun t _ _ s'' hu ha => (hstranger.unlock_step hu ha).1⟩
    have hco := hstranger.co
    simp [hhold, CoPc.isStranger, CoPc.inResume] at hco

/-- No waiter is stranded: when no call is in flight, a mutex without an owner
has an empty wait list, and a coroutine that called `lock` has been scheduled or
is in the wait list; it is scheduled at most once in any state. -/
theorem asyncMutex_never_strands (hs : (system Thread Co).Reach s) :
    (∀ c, s.schedules c ≤ 1) ∧
    ((∀ t, s.call t = .idle) →
      (s.owner = none → s.waitList = []) ∧
      ∀ c, s.asked c = true →
        s.schedules c = 1 ∧ c ∉ s.waitList ∨ s.schedules c = 0 ∧ s.waitList.count c = 1) := by
  have hi := inv_of_reach hs
  refine ⟨fun c => ?_, fun hidle => ⟨fun ho => ?_, fun c hc => ?_⟩⟩
  · rw [hi.schedules c]
    split <;> omega
  · by_contra hw
    obtain ⟨t, ht⟩ := hi.responsible ho hw
    rw [hidle t] at ht
    cases ht
  · have hcustody := hi.custody c
    have hschedules := hi.schedules c
    simp only [hidle, Call.held_idle, List.count_nil, Finset.sum_const_zero, Nat.add_zero]
      at hcustody
    by_cases hw : s.co c = .waiting
    · exact .inr ⟨by simp [hschedules, hw], by simp [hcustody, State.waits, hw]⟩
    · refine .inl ⟨by simp [hschedules, hc, hw], List.count_eq_zero.mp ?_⟩
      simp [hcustody, State.waits, hw]

end Strangers

def handedOver : List (Action (Fin 2) (Fin 2)) :=
  .await 0 :: List.replicate 10 (.co 0 true false false) ++
    (.await 1 :: List.replicate 7 (.co 1 true false false)) ++
    (.lock 1 1 :: List.replicate 3 (.call 1 false 0)) ++
    (.unlock 0 0 :: List.replicate 5 (.call 0 false 0)) ++
    List.replicate 5 (.co 1 true false false)

theorem asyncMutex_mutual_exclusion_handed_over :
    ∃ s : State (Fin 2) (Fin 2), (system (Fin 2) (Fin 2)).Reach s ∧ s.co 1 = .holding ∧
      s.owner = some 1 ∧ s.co 0 ≠ .holding := by
  obtain ⟨s, hr, hdata⟩ := StepSystem.Reach.exists_of_exec (M := system (Fin 2) (Fin 2))
    (P := fun s => s.co 1 = .holding) (s := initial (fun _ => false) fun _ => false)
    (.start ⟨_, _, rfl⟩) handedOver (by decide)
  have h := asyncMutex_mutual_exclusion hr
  refine ⟨s, hr, hdata, h.2.1 1 hdata, fun h₀ => ?_⟩
  have := h.1 0 1 h₀ hdata
  simp at this

theorem asyncMutex_never_strands_handed_over :
    ∃ s : State (Fin 2) (Fin 2), (system (Fin 2) (Fin 2)).Reach s ∧
      s.schedules 1 = 1 ∧ 1 ∉ s.waitList := by
  obtain ⟨s, hr, hidle, hasked, hone⟩ :=
    StepSystem.Reach.exists_of_exec (M := system (Fin 2) (Fin 2))
      (P := fun s => (∀ t, s.call t = .idle) ∧ s.asked 1 = true ∧ s.schedules 1 = 1)
      (s := initial (fun _ => false) fun _ => false) (.start ⟨_, _, rfl⟩) handedOver (by decide)
  rcases ((asyncMutex_never_strands hr).2 hidle).2 1 hasked with h | h
  · exact ⟨s, hr, h⟩
  · omega

end LevelzAsync.AsyncMutex
