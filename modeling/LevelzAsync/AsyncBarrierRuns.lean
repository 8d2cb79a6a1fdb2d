import LevelzAsync.AsyncBarrierRounds

/-!
# Runs of the barrier that no cancellation disturbs

A cancellation takes nodes out of the wait list that the number of arrivals still
promises to the releaser. As long as no drain takes a node under a release, and
no release begins after a drain has taken one, every call finds what it goes by.
-/

namespace LevelzAsync.AsyncBarrier

variable {Thread P : Type*}

/-- The step does not begin a release after a drain has taken a node, and does not
drain a node under a release. -/
def Undisturbed (s : State Thread P) : Action Thread P → Prop
  | .call t _ _ =>
      match s.call t with
      | .readyRelease _ | .releaseLoad _ _ => s.count + 1 = s.capacity → s.drained = false
      | .drainDequeue => s.waitList ≠ [] → ∀ u, (s.call u).role.releases = false
      | _ => True
  | _ => True

instance [Fintype Thread] (s : State Thread P) (a : Action Thread P) :
    Decidable (Undisturbed s a) := by
  unfold Undisturbed
  split
  · split <;> infer_instance
  · infer_instance

variable {s s' : State Thread P} {t : Thread} {c : Call P} {p : P} {releaser : Releaser P}
  {left count : ℕ}

theorem Call.of_seesLast {n : ℕ} (h : c.seesLast n = true) :
    (∃ p, c.awaits = some p) ∨ ∃ p, c.role.uncounted = some p := by
  cases c with
  | isCanceled | enqueue => exact .inl ⟨_, rfl⟩
  | isCanceledAgain | arrive | releaseLoad | releaseStore => exact .inr ⟨_, rfl⟩
  | _ => cases h

theorem Call.of_awaits (h : c.awaits = some p) : c.role = .away ∧ ∀ y, c.held y = none := by
  cases c with
  | ready | readyIsCanceled | readyRelease | suspend | suspendIsCanceled | loadCount | isCanceled
  | enqueue => exact ⟨rfl, fun y => by cases y <;> rfl⟩
  | _ => cases h

variable [DecidableEq Thread] [DecidableEq P]

omit [DecidableEq P] in
theorem Arrivals.go (h : Arrivals s) (hcall : s'.call = Function.update s.call t c)
    (hlist : s'.waitList = s.waitList) (hco : s'.co = s.co) (harrived : s'.arrived = s.arrived)
    (hreleased : s'.released = s.released)
    (hc : c.awaits = none ∨ c.awaits = (s.call t).awaits)
    (hheld : ∀ y, c.held y = (s.call t).held y) : Arrivals s' :=
  h.stay hcall hc (h.ledger.agentStay (fun _ => hlist) hheld) hco harrived hreleased

omit [DecidableEq P] in
theorem Arrivals.letGo {x : Hand} (h : Arrivals s) (hp : (s.call t).held x = some p)
    (hcall : s'.call = Function.update s.call t c) (hc : c.awaits = none)
    (hnone : c.held x = none) (hother : ∀ y, y ≠ x → c.held y = (s.call t).held y)
    (hlist : s'.waitList = s.waitList) (harrived : s'.arrived = s.arrived)
    (hreleased : s'.released p = s.released p + 1)
    (hreleased' : ∀ q, q ≠ p → s'.released q = s.released q)
    (hco : ∀ q, q ≠ p → s'.co q = s.co q) : Arrivals s' := by
  have hinside := h.inside_of_held hp
  have hle := h.ledger.le_left_add_one p
  refine h.of_ledger hcall (.inl hc) ?_ (fun q hq => ?_) fun u q hu hu' => ?_
  · rw [harrived]
    exact h.ledger.agentRelease hp (fun _ => hlist) hnone hother hreleased hreleased'
  · have hqp : q ≠ p := by
      rintro rfl
      rw [harrived] at hq
      omega
    rw [harrived, hreleased' q hqp] at hq
    rw [hco q hqp]
    exact h.place q hq
  · have hqp := h.ne_of_inside hinside hu'
    exact ⟨hco q hqp, by rw [harrived], hreleased' q hqp⟩

variable [Fintype P]

omit [DecidableEq P] in
theorem Inv.go {q : Call P} (h : Inv s) (hp : s.call t = q)
    (hc : c.awaits = none ∨ c.awaits = q.awaits) (hheld : ∀ y, c.held y = q.held y)
    (hrole : c.role = q.role ∨ c.role = .away ∧ q.role.dequeues = false)
    (hfits : c.Fits s) : Inv (s.go t c) := by
  subst hp
  refine ⟨h.participants, h.arrivals.go rfl rfl rfl rfl rfl hc hheld,
    h.calls.stay rfl rfl rfl rfl rfl hfits, fun hd => ?_⟩
  obtain ⟨k, hk⟩ := h.round hd
  exact ⟨k, hk.stay rfl hrole rfl rfl rfl rfl rfl rfl⟩

theorem Inv.leave (h : Inv s) (hp : (s.call t).awaits = some p) (mustSuspend : Bool) :
    Inv (s.leave t p mustSuspend) := by
  obtain ⟨hrole, hheld⟩ := Call.of_awaits hp
  have hout := (h.arrivals.awaits t p hp).2
  refine ⟨h.participants, h.arrivals.of_ledger rfl (.inl rfl)
    (h.arrivals.ledger.agentStay (fun _ => rfl) fun y => (hheld y).symm) (fun q hq => ?_)
    fun u q hu hu' => ⟨?_, rfl, rfl⟩, h.calls.stay rfl rfl rfl rfl rfl (Call.fits_of_plain rfl),
    fun hd => ?_⟩
  · have hne : q ≠ p := by
      rintro rfl
      exact absurd (show s.released q < s.arrived q from hq) (by omega)
    change Function.update s.co p _ q = _ ∨ Function.update s.co p _ q = _
    rw [Function.update_of_ne hne]
    exact h.arrivals.place q hq
  · exact Function.update_of_ne (h.arrivals.ne_of_awaits rfl rfl hp hu hu') _ _
  · obtain ⟨k, hk⟩ := h.round hd
    exact ⟨k, hk.stay rfl (.inr ⟨rfl, by rw [hrole]; rfl⟩) rfl rfl rfl rfl rfl rfl⟩

theorem Inv.await (h : Inv s) (hco : s.co p = .running) (hp : s.call t = .idle) :
    Inv ((s.go t (.ready p)).move p .arriving) := by
  have hout : s.arrived p = s.released p := by
    have hle := h.arrivals.ledger.left_le p
    by_contra hne
    rcases h.arrivals.place p (by omega) with hq | hq
    · rw [hco] at hq
      cases hq
    · rw [hco] at hq
      cases hq
  have hnew : ∀ u q, ((s.go t (.ready p)).call u).awaits = some q →
      u = t ∧ q = p ∨ u ≠ t ∧ q ≠ p ∧ (s.call u).awaits = some q := by
    intro u q hu
    have hcall : (s.go t (.ready p)).call = Function.update s.call t (.ready p) := rfl
    rcases agent_cases (Q := fun c => c.awaits = some q) hcall hu with ⟨hut, hq⟩ | ⟨hut, hq⟩
    · exact .inl ⟨hut, (Option.some.inj hq).symm⟩
    · refine .inr ⟨hut, ?_, hq⟩
      rintro rfl
      have := (h.arrivals.awaits u q hq).1
      rw [hco] at this
      cases this
  refine ⟨h.participants, ⟨?_, fun q hq => ?_, fun u q hu => ?_, fun u v q hu hv => ?_⟩,
    h.calls.stay rfl rfl rfl rfl rfl (Call.fits_of_plain rfl), fun hd => ?_⟩
  · exact h.arrivals.ledger.agentStay (fun _ => rfl) fun y => by rw [hp]; cases y <;> rfl
  · have hne : q ≠ p := by
      rintro rfl
      exact absurd (show s.released q < s.arrived q from hq) (by omega)
    change Function.update s.co p _ q = _ ∨ Function.update s.co p _ q = _
    rw [Function.update_of_ne hne]
    exact h.arrivals.place q hq
  · rcases hnew u q hu with ⟨_, rfl⟩ | ⟨_, hne, hq⟩
    · exact ⟨Function.update_self _ _ _, hout⟩
    · obtain ⟨h₁, h₂⟩ := h.arrivals.awaits u q hq
      exact ⟨(Function.update_of_ne hne _ _).trans h₁, h₂⟩
  · rcases hnew u q hu with ⟨rfl, hq⟩ | ⟨_, hne, hu⟩
    · rcases hnew v q hv with ⟨rfl, _⟩ | ⟨_, hne, _⟩
      · rfl
      · exact absurd hq hne
    · rcases hnew v q hv with ⟨_, hq⟩ | ⟨_, _, hv⟩
      · exact absurd hq hne
      · exact h.arrivals.unique u v q hu hv
  · obtain ⟨k, hk⟩ := h.round hd
    exact ⟨k, hk.stay rfl (.inr ⟨rfl, by rw [hp]; rfl⟩) rfl rfl rfl rfl rfl rfl⟩

omit [DecidableEq Thread] in
theorem Inv.resume (h : Inv s) (hco : s.co p = .scheduled) (passed : P → ℕ) :
    Inv { s.move p .running with passed := passed } := by
  have hne : ∀ q, s.co q = .suspended ∨ s.co q = .arriving → q ≠ p := by
    rintro q hq rfl
    rw [hco] at hq
    rcases hq with hq | hq <;> cases hq
  refine ⟨h.participants, ⟨h.arrivals.ledger, fun q hq => ?_, fun u q hu => ?_,
    h.arrivals.unique⟩, ⟨h.calls.count_lt, h.calls.drained, fun u => ?_⟩, fun hd => ?_⟩
  · have hplace := h.arrivals.place q hq
    change Function.update s.co p _ q = _ ∨ Function.update s.co p _ q = _
    rwa [Function.update_of_ne (hne q hplace)]
  · obtain ⟨h₁, h₂⟩ := h.arrivals.awaits u q hu
    exact ⟨(Function.update_of_ne (hne q (.inr h₁)) _ _).trans h₁, h₂⟩
  · exact (h.calls.fits u).congr rfl rfl rfl rfl
  · obtain ⟨k, hk⟩ := h.round hd
    exact ⟨k, ⟨hk.count_eq, hk.le, hk.counted, hk.old, hk.fresh, hk.rounds_le, hk.released_le⟩,
      hk.idle, fun u => (hk.fits u).mono rfl rfl (List.Subset.refl _) (List.Subset.refl _)
        (fun _ => le_rfl) rfl rfl, hk.unique, hk.alone⟩

theorem Inv.enqueue {mustSuspend : Bool} (h : Inv s)
    (hp : s.call t = .enqueue p mustSuspend count) :
    Inv { (s.go t (.isCanceledAgain p mustSuspend count)).move p .suspended with
      waitList := s.waitList ++ [p]
      arrived := Function.update s.arrived p (s.arrived p + 1) } := by
  have haw : (s.call t).awaits = some p := by rw [hp]; rfl
  have hout := (h.arrivals.awaits t p haw).2
  have hfits := h.calls.fits t
  refine ⟨h.participants, h.arrivals.of_ledger rfl (.inl rfl) ?_ (fun q hq => ?_)
    fun u q hu hu' => ?_, h.calls.stay rfl rfl rfl rfl rfl ?_, fun hd => ?_⟩
  · exact h.arrivals.ledger.agentEnter (k := ()) hout rfl nofun
      (fun y => by rw [hp]; cases y <;> rfl) (Function.update_self _ _ _)
      fun d hd => Function.update_of_ne hd _ _
  · change Function.update s.co p _ q = _ ∨ Function.update s.co p _ q = _
    by_cases hqp : q = p
    · rw [hqp, Function.update_self]
      exact .inl rfl
    · rw [Function.update_of_ne hqp]
      apply h.arrivals.place q
      have hq : s.released q < Function.update s.arrived p (s.arrived p + 1) q := hq
      rwa [Function.update_of_ne hqp] at hq
  · have hne := h.arrivals.ne_of_awaits rfl rfl haw hu hu'
    exact ⟨Function.update_of_ne hne _ _, Function.update_of_ne hne _ _, rfl⟩
  · rw [hp] at hfits
    exact ⟨fun n hn => hfits.localCount_lt n hn, nofun, hfits.last, nofun, nofun, fun _ => rfl⟩
  · obtain ⟨k, hk⟩ := h.round hd
    exact ⟨k, hk.enqueue h.arrivals rfl (by rw [hp]; rfl) rfl hout rfl (Function.update_self _ _ _)
      (fun q hq => Function.update_of_ne hq _ _) rfl rfl rfl rfl⟩

/-- A participant is the last to arrive, and releases the others without waiting. -/
theorem Inv.readyRelease (h : Inv s) (hp : s.call t = .readyRelease p)
    (hlast : s.count + 1 = s.capacity) (hdrained : s.drained = false) :
    Inv { s.go t (.releaseStore (.ready p)) with
      arrived := Function.update s.arrived p (s.arrived p + 1) } := by
  have haw : (s.call t).awaits = some p := by rw [hp]; rfl
  have hout := (h.arrivals.awaits t p haw).2
  have hplace := (h.arrivals.awaits t p haw).1
  refine ⟨h.participants, h.arrivals.of_ledger rfl (.inl rfl) ?_ (fun q hq => ?_)
    fun u q hu hu' => ?_, h.calls.stay rfl rfl rfl rfl rfl ?_, fun hd => ?_⟩
  · exact h.arrivals.ledger.agentAcquire (x := .own) hout (fun _ => rfl) (by rw [hp]; rfl) rfl
      (fun y hy => by rw [hp]; cases y <;> first | rfl | exact absurd rfl hy)
      (Function.update_self _ _ _) fun d hd => Function.update_of_ne hd _ _
  · by_cases hqp : q = p
    · exact .inr (hqp ▸ hplace)
    · apply h.arrivals.place q
      have hq : s.released q < Function.update s.arrived p (s.arrived p + 1) q := hq
      rwa [Function.update_of_ne hqp] at hq
  · have hne := h.arrivals.ne_of_awaits rfl rfl haw hu hu'
    exact ⟨rfl, Function.update_of_ne hne _ _, rfl⟩
  · exact ⟨nofun, nofun, fun _ => hlast, nofun, nofun,
      fun hd => absurd (hdrained.symm.trans hd) nofun⟩
  · obtain ⟨k, hk⟩ := h.round hd
    have hself : Function.update s.arrived p (s.arrived p + 1) p = s.arrived p + 1 :=
      Function.update_self _ _ _
    have hle := hk.rounds_le p
    have huncounted : s.counted p = false := by
      by_contra hc
      have := h.arrivals.inside_of_mem (List.mem_of_mem_drop (hk.counted p (by simpa using hc)))
      omega
    have hmono : ∀ q, s.arrived q ≤ Function.update s.arrived p (s.arrived p + 1) q := by
      intro q
      by_cases hqp : q = p
      · rw [hqp, hself]
        omega
      · rw [Function.update_of_ne hqp]
    have hlt : s.rounds < Function.update s.arrived p (s.arrived p + 1) p := by omega
    refine ⟨k, hk.startRelease h.participants hlast rfl (by rw [hp]; rfl) rfl huncounted
      (fun u _ hu => ?_) nofun rfl hmono hlt rfl rfl rfl rfl rfl⟩
    have hinside : s.released p < s.arrived p := inside_of_uncounted h.arrivals hk.toRoles hu
    omega

omit [DecidableEq P] in
theorem Inv.releaseLoad {mustSuspend : Bool} (h : Inv s)
    (hp : s.call t = .releaseLoad p mustSuspend) (hdrained : s.drained = false) :
    Inv (s.go t (.releaseStore (.suspend p mustSuspend false))) := by
  have hlast := (h.calls.fits t).last (by rw [hp]; rfl)
  refine ⟨h.participants,
    h.arrivals.go rfl rfl rfl rfl rfl (.inl rfl) fun y => by rw [hp]; cases y <;> rfl,
    h.calls.stay rfl rfl rfl rfl rfl ?_, fun hd => ?_⟩
  · exact ⟨nofun, nofun, fun _ => hlast, nofun, nofun,
      fun hd => absurd (hdrained.symm.trans hd) nofun⟩
  · obtain ⟨k, hk⟩ := h.round hd
    have hrole : (s.call t).role = .entering p := by rw [hp]; rfl
    have hmem := (hk.fits t).entering p hrole
    refine ⟨k, hk.startRelease h.participants hlast rfl (by rw [hrole]; rfl) rfl
      ((hk.fits t).uncounted p (by rw [hrole]; rfl)) (fun u hu hq => hu ?_) (fun q hq => ?_) rfl
      (fun _ => le_rfl) (hk.fresh p hmem) rfl rfl rfl rfl rfl⟩
    · exact hk.unique u t p hq (by rw [hrole]; rfl)
    · cases hq
      exact List.mem_of_mem_drop hmem

theorem Inv.increment {mustSuspend : Bool} (h : Inv s) (hp : s.call t = .arrive p mustSuspend count)
    (hcount : s.count = count) (hne : count + 1 ≠ s.capacity) :
    Inv { s.go t (.assertCount p) with
      count := count + 1
      counted := Function.update s.counted p true } := by
  have hlt := (h.calls.fits t).localCount_lt count (by rw [hp]; rfl)
  refine ⟨h.participants,
    h.arrivals.go rfl rfl rfl rfl rfl (.inl rfl) fun y => by rw [hp]; cases y <;> rfl,
    ⟨fun _ => show count + 1 < s.capacity by omega, h.calls.drained, fun u => ?_⟩, fun hd => ?_⟩
  · change Call.Fits _ (Function.update s.call t (.assertCount p) u)
    by_cases hut : u = t
    · rw [hut, Function.update_self]
      exact Call.fits_of_plain rfl
    · rw [Function.update_of_ne hut]
      obtain ⟨h₁, h₂, h₃, h₄, h₅, h₆⟩ := h.calls.fits u
      refine ⟨h₁, h₂, fun hl => ?_, h₄, h₅, h₆⟩
      have := h₃ hl
      omega
  · obtain ⟨k, hk⟩ := h.round hd
    exact ⟨k, hk.increment rfl (by rw [hp]; rfl) rfl (congrArg (· + 1) hcount.symm) rfl rfl rfl rfl
      rfl⟩

omit [DecidableEq P] in
theorem Inv.releaseStore (h : Inv s) (hp : s.call t = .releaseStore releaser) :
    Inv { s.go t (.releaseDequeue releaser (s.dequeCount releaser)) with
      count := 0
      counted := fun _ => false
      rounds := s.rounds + 1 } := by
  have hlast := (h.calls.fits t).last (by rw [hp]; rfl)
  have hdrained : s.drained = false := by
    by_contra hd
    have := (h.calls.fits t).drained (by simpa using hd)
    rw [hp] at this
    cases this
  obtain ⟨k, hk⟩ := h.round hdrained
  have hrole : (s.call t).role = .storing releaser := by rw [hp]; rfl
  have hall := ((hk.fits t).storing releaser hrole).1
  have hself : (s.call t).role.uncounted = some releaser.participant := by rw [hrole]; rfl
  have hinside : ∀ q, s.released q < s.arrived q := by
    intro q
    by_cases hq : q = releaser.participant
    · exact hq ▸ inside_of_uncounted h.arrivals hk.toRoles hself
    · exact h.arrivals.inside_of_mem (List.mem_of_mem_drop (hk.counted q (hall q hq)))
  -- a call that has found `m_count` at its last value would be that of an uncounted arrival
  have hsees : ∀ u, u ≠ t → (s.call u).seesLast s.capacity = false := by
    intro u hut
    by_contra hs
    rcases Call.of_seesLast (by simpa using hs) with ⟨q, hq⟩ | ⟨q, hq⟩
    · have := (h.arrivals.awaits u q hq).2
      have := hinside q
      omega
    · by_cases hqp : q = releaser.participant
      · exact hut (hk.unique u t q hq (hqp ▸ hself))
      · have := (hk.fits u).uncounted q hq
        rw [hall q hqp] at this
        cases this
  refine ⟨h.participants,
    h.arrivals.go rfl rfl rfl rfl rfl (.inl rfl) fun y => by rw [hp]; cases y <;> rfl,
    ⟨fun _ => show 0 < s.capacity by omega, h.calls.drained, fun u => ?_⟩, fun _ => ?_⟩
  · change Call.Fits _ (Function.update s.call t (.releaseDequeue releaser _) u)
    by_cases hut : u = t
    · rw [hut, Function.update_self]
      exact ⟨nofun, nofun, nofun, nofun, nofun, fun hd => absurd (hdrained.symm.trans hd) nofun⟩
    · rw [Function.update_of_ne hut]
      obtain ⟨h₁, h₂, h₃, h₄, h₅, h₆⟩ := h.calls.fits u
      refine ⟨h₁, h₂, fun hl => ?_, h₄, h₅, h₆⟩
      have hl : (s.call u).seesLast s.capacity = true := hl
      rw [hsees u hut] at hl
      cases hl
  · exact ⟨_, hk.releaseStore h.arrivals h.participants hlast hrole rfl rfl rfl rfl rfl rfl rfl rfl⟩

omit [DecidableEq Thread] [DecidableEq P] in
/-- What a releaser does after its test goes by a wait list that no drain has
touched. -/
theorem Inv.round_of_releases (h : Inv s) (hp : (s.call t).role.releases = true) :
    s.drained = false ∧ ∃ k, Round s k := by
  have hdrained : s.drained = false := by
    by_contra hd
    rw [(h.calls.fits t).drained (by simpa using hd)] at hp
    cases hp
  exact ⟨hdrained, h.round hdrained⟩

omit [DecidableEq Thread] [Fintype P] in
theorem Releaser.fits_take (releaser : Releaser P) (q : P) (left : ℕ)
    (hdrained : s.drained = false) :
    (releaser.take q left).Fits s ∧ (releaser.take q left).awaits = none := by
  have hd : ∀ c : Call P, s.drained = true → c.role.releases = false := fun _ hd =>
    absurd (hdrained.symm.trans hd) nofun
  cases releaser with
  | ready p => exact ⟨⟨nofun, nofun, nofun, nofun, nofun, hd _⟩, rfl⟩
  | suspend p mustSuspend skipped =>
      by_cases hq : q = p
      · rw [show (Releaser.suspend p mustSuspend skipped).take q left = _ from if_pos hq]
        exact ⟨⟨nofun, nofun, nofun, nofun, nofun, hd _⟩, rfl⟩
      · rw [show (Releaser.suspend p mustSuspend skipped).take q left = _ from if_neg hq]
        exact ⟨⟨nofun, nofun, nofun, nofun, nofun, hd _⟩, rfl⟩

/-- The node that the releaser takes is its own or one that it has to schedule. -/
theorem Inv.take {q : P} {rest : List P} (h : Inv s)
    (hp : s.call t = .releaseDequeue releaser (left + 1)) (hcons : s.waitList = q :: rest) :
    Inv { s.go t (releaser.take q left) with waitList := rest } := by
  have hrole : (s.call t).role = .releasing releaser (left + 1) none := by rw [hp]; rfl
  obtain ⟨hdrained, k, hk⟩ := h.round_of_releases (t := t) (by rw [hrole]; rfl)
  obtain rfl := ((hk.fits t).releasing releaser (left + 1) none hrole).1
  obtain ⟨hfits, hawaits⟩ := releaser.fits_take q left hdrained
  refine ⟨h.participants, h.arrivals.stay rfl (.inl hawaits) ?_ rfl rfl rfl,
    h.calls.stay rfl rfl rfl rfl rfl hfits,
    fun _ => ⟨left, hk.take hrole hcons rfl rfl rfl rfl rfl rfl rfl rfl⟩⟩
  -- its own node is not yet in its hands if it comes by in the list
  have hqueued : ∀ p mustSuspend, releaser = .suspend p mustSuspend true → q ≠ p := by
    rintro p mustSuspend rfl rfl
    have hheld : (s.call t).held .own = some q := by rw [hp]; rfl
    have hmem : q ∈ s.waitList := by rw [hcons]; exact List.mem_cons_self
    exact nomatch h.arrivals.ledger.unique q (.inl ()) (.inr (t, .own)) hmem hheld
  cases releaser with
  | ready p =>
      exact h.arrivals.ledger.agentTake (k := ()) (x := .node) hcons rfl nofun (by rw [hp]; rfl)
        rfl fun y hy => by rw [hp]; cases y <;> first | rfl | exact absurd rfl hy
  | suspend p mustSuspend skipped =>
      by_cases hqp : q = p
      · subst hqp
        cases skipped with
        | true => exact absurd rfl (hqueued q mustSuspend rfl)
        | false =>
            simp only [Releaser.take, if_pos]
            exact h.arrivals.ledger.agentTake (k := ()) (x := .own) hcons rfl nofun
              (by rw [hp]; rfl) rfl
              fun y hy => by rw [hp]; cases y <;> first | rfl | exact absurd rfl hy
      · simp only [Releaser.take, if_neg hqp]
        exact h.arrivals.ledger.agentTake (k := ()) (x := .node) hcons rfl nofun (by rw [hp]; rfl)
          rfl fun y hy => by rw [hp]; cases y <;> first | rfl | exact absurd rfl hy

theorem Inv.schedule {q : P} (h : Inv s) (hp : s.call t = .releaseSchedule releaser q left) :
    Inv ((s.go t (.releaseDequeue releaser left)).schedule q) := by
  have hrole : (s.call t).role = .releasing releaser left (some q) := by rw [hp]; rfl
  have hnode : (s.call t).held .node = some q := by rw [hp]; rfl
  obtain ⟨hdrained, k, hk⟩ := h.round_of_releases (t := t) (by rw [hrole]; rfl)
  obtain ⟨hleft, hqueued, hlt, hnode'⟩ := (hk.fits t).releasing releaser left (some q) hrole
  have hout : ∀ p place, StoredAt (fun _ : Unit => s.waitList) s.holds p place →
      place ≠ .inr (t, .node) → p ≠ q := by
    rintro p place hplace hne rfl
    exact hne (h.arrivals.ledger.unique p place (.inr (t, .node)) hplace hnode)
  have hnot : q ∉ s.waitList := fun hmem => hout q (.inl ()) hmem nofun rfl
  have hself : releaser.participant ≠ q := by
    rcases releaser.queued_or_held with hq | hq
    · exact hout _ (.inl ()) (List.mem_of_mem_take (hqueued _ hq)) nofun
    · exact hout _ (.inr (t, .own)) ((Call.held_of_releasing hrole).1.trans hq) nofun
  refine ⟨h.participants, h.arrivals.letGo (x := .node) hnode rfl rfl rfl
    (fun y hy => by rw [hp]; cases y <;> first | rfl | exact absurd rfl hy) rfl rfl
    (Function.update_self _ _ _) (fun p hpq => Function.update_of_ne hpq _ _)
    (fun p hpq => Function.update_of_ne hpq _ _), ?_, fun _ => ⟨k, ?_⟩⟩
  · exact h.calls.stay rfl rfl rfl rfl rfl
      ⟨nofun, nofun, nofun, nofun, nofun, fun hd => absurd (hdrained.symm.trans hd) nofun⟩
  · refine hk.letGo (q := q) rfl (by rw [hrole]; rfl) (hnode' q rfl) hnot rfl rfl rfl rfl
      (Function.update_self _ _ _) (fun p hpq => Function.update_of_ne hpq _ _) rfl
      (fun hu => ?_) ⟨fun p hp' => ?_, nofun, nofun, fun releaser' left' node' hr => ?_⟩
      fun p hp' => ?_
    · have := hu t
      change (Function.update s.call t _ t).role.dequeues = false at this
      rw [Function.update_self] at this
      cases this
    · exact (hk.fits t).uncounted p (by rw [hrole]; exact hp')
    · cases hr
      refine ⟨hleft, hqueued, ?_, nofun⟩
      change Function.update s.released q _ releaser.participant < s.rounds
      rwa [Function.update_of_ne hself]
    · rw [hrole]
      exact hp'

omit [DecidableEq Thread] [DecidableEq P] in
/-- The releaser has taken all nodes of the round, its own among them. -/
theorem Inv.held_own (h : Inv s) (hp : s.call t = .releaseDequeue releaser 0) :
    (s.call t).held .own = some releaser.participant := by
  have hrole : (s.call t).role = .releasing releaser 0 none := by rw [hp]; rfl
  obtain ⟨_, k, hk⟩ := h.round_of_releases (t := t) (by rw [hrole]; rfl)
  obtain ⟨rfl, hqueued, _⟩ := (hk.fits t).releasing releaser 0 none hrole
  rcases releaser.queued_or_held with hq | hq
  · have := hqueued _ hq
    rw [List.take_zero] at this
    cases this
  · exact (Call.held_of_releasing hrole).1.trans hq

theorem Inv.returnRelease (h : Inv s) (hp : s.call t = .releaseDequeue releaser 0) :
    Inv (s.returnRelease t releaser) := by
  have hrole : (s.call t).role = .releasing releaser 0 none := by rw [hp]; rfl
  obtain ⟨hdrained, k, hk⟩ := h.round_of_releases (t := t) (by rw [hrole]; rfl)
  obtain ⟨rfl, _, hlt, _⟩ := (hk.fits t).releasing releaser 0 none hrole
  have hown := h.held_own hp
  have hnot : releaser.participant ∉ s.waitList := fun hmem =>
    nomatch h.arrivals.ledger.unique _ (.inl ()) (.inr (t, .own)) hmem hown
  have hother : ∀ y, y ≠ Hand.own → (Call.idle : Call P).held y = (s.call t).held y := by
    intro y hy
    rw [hp]
    cases y <;> first | rfl | exact absurd rfl hy
  have hreleases : (s.call t).role.releases = true := by rw [hrole]; rfl
  cases releaser with
  | ready p =>
      exact ⟨h.participants, h.arrivals.letGo (x := .own) hown rfl rfl rfl hother rfl rfl
        (Function.update_self _ _ _) (fun q hq => Function.update_of_ne hq _ _)
        (fun q hq => Function.update_of_ne hq _ _),
        h.calls.stay rfl rfl rfl rfl rfl (Call.fits_of_plain rfl),
        fun _ => ⟨0, hk.letGo rfl hreleases hlt hnot rfl rfl rfl rfl (Function.update_self _ _ _)
          (fun q hq => Function.update_of_ne hq _ _) rfl (fun _ => rfl) .away nofun⟩⟩
  | suspend p mustSuspend skipped =>
      exact ⟨h.participants, h.arrivals.letGo (x := .own) hown rfl rfl rfl hother rfl rfl
        (Function.update_self _ _ _) (fun q hq => Function.update_of_ne hq _ _)
        (fun q hq => Function.update_of_ne hq _ _),
        h.calls.stay rfl rfl rfl rfl rfl (Call.fits_of_plain rfl),
        fun _ => ⟨0, hk.letGo rfl hreleases hlt hnot rfl rfl rfl rfl (Function.update_self _ _ _)
          (fun q hq => Function.update_of_ne hq _ _) rfl (fun _ => rfl) .away nofun⟩⟩

omit [DecidableEq P] in
theorem Inv.cancelMark (h : Inv s) (hp : s.call t = .cancelMark) :
    Inv { s.go t .drainDequeue with canceled := true } := by
  refine ⟨h.participants, h.arrivals.go rfl rfl rfl rfl rfl (.inl rfl)
    fun y => by rw [hp]; cases y <;> rfl, ⟨h.calls.count_lt, fun _ => rfl, fun u => ?_⟩,
    fun hd => ?_⟩
  · change Call.Fits _ (Function.update s.call t .drainDequeue u)
    by_cases hut : u = t
    · rw [hut, Function.update_self]
      exact ⟨nofun, nofun, nofun, fun _ => rfl, nofun, fun _ => rfl⟩
    · rw [Function.update_of_ne hut]
      obtain ⟨h₁, h₂, h₃, _, h₅, h₆⟩ := h.calls.fits u
      exact ⟨h₁, h₂, h₃, fun _ => rfl, h₅, h₆⟩
  · obtain ⟨k, hk⟩ := h.round hd
    exact ⟨k, hk.stay rfl (.inr ⟨rfl, by rw [hp]; rfl⟩) rfl rfl rfl rfl rfl rfl⟩

omit [DecidableEq P] in
/-- A drain takes a node, and nobody releases others. -/
theorem Inv.drain {q : P} {rest : List P} (h : Inv s) (hp : s.call t = .drainDequeue)
    (hcons : s.waitList = q :: rest) (hnobody : ∀ u, (s.call u).role.releases = false) :
    Inv { s.go t (.drainSchedule q) with waitList := rest, drained := true } := by
  have hcanceled := (h.calls.fits t).drains (by rw [hp]; rfl)
  refine ⟨h.participants, h.arrivals.stay rfl (.inl rfl) ?_ rfl rfl rfl,
    ⟨h.calls.count_lt, fun _ => hcanceled, fun u => ?_⟩, nofun⟩
  · exact h.arrivals.ledger.agentTake (k := ()) (x := .node) hcons rfl nofun (by rw [hp]; rfl)
      rfl fun y hy => by rw [hp]; cases y <;> first | rfl | exact absurd rfl hy
  · change Call.Fits _ (Function.update s.call t (.drainSchedule q) u)
    by_cases hut : u = t
    · rw [hut, Function.update_self]
      exact ⟨nofun, nofun, nofun, fun _ => hcanceled, fun _ _ => rfl, fun _ => rfl⟩
    · rw [Function.update_of_ne hut]
      obtain ⟨h₁, h₂, h₃, h₄, _, _⟩ := h.calls.fits u
      exact ⟨h₁, h₂, h₃, h₄, fun _ _ => rfl, fun _ => hnobody u⟩

theorem Inv.drainSchedule {q : P} (h : Inv s) (hp : s.call t = .drainSchedule q) :
    Inv ((s.go t .drainDequeue).schedule q) := by
  have hcanceled := (h.calls.fits t).drains (by rw [hp]; rfl)
  have hdrained : s.drained = true := (h.calls.fits t).node q hp
  refine ⟨h.participants, h.arrivals.letGo (x := .node) (by rw [hp]; rfl) rfl rfl rfl
    (fun y hy => by rw [hp]; cases y <;> first | rfl | exact absurd rfl hy) rfl rfl
    (Function.update_self _ _ _) (fun p hpq => Function.update_of_ne hpq _ _)
    (fun p hpq => Function.update_of_ne hpq _ _), ?_, fun hd => ?_⟩
  · exact h.calls.stay rfl rfl rfl rfl rfl
      ⟨nofun, nofun, nofun, fun _ => hcanceled, nofun, fun _ => rfl⟩
  · exact absurd (hdrained.symm.trans hd) nofun

omit [DecidableEq P] in
theorem Inv.goPlain {q : Call P} (h : Inv s) (hp : s.call t = q)
    (hc : c.awaits = none ∨ c.awaits = q.awaits) (hheld : ∀ y, c.held y = q.held y)
    (hrole : q.role.dequeues = false) (hplain : c.plain = true) : Inv (s.go t c) := by
  have haway : c.role = .away := by
    cases c <;> first | rfl | cases hplain
  exact h.go hp hc hheld (.inr ⟨haway, hrole⟩) (Call.fits_of_plain hplain)

theorem Inv.callStep {advice : SuspensionAdvice} {spurious : Bool} (h : Inv s)
    (hg : Undisturbed s (.call t advice spurious))
    (hs : callStep s t advice spurious (s.call t) = some s') : Inv s' := by
  have hfits := h.calls.fits t
  cases hp : s.call t with
  | idle | failed =>
      rw [hp] at hs
      cases hs
  | ready p =>
      rw [hp] at hs
      cases hs
      have hgo : ∀ c : Call P, c.awaits = some p → c.plain = true → Inv (s.go t c) :=
        fun c hc hpl => h.goPlain hp (.inr hc)
          (fun y => by rw [(Call.of_awaits hc).2]; cases y <;> rfl) rfl hpl
      cases advice with
      | shouldNotSuspend => exact h.leave (by rw [hp]; rfl) false
      | shouldSuspend => exact hgo _ rfl rfl
      | maySuspend => exact hgo _ rfl rfl
  | readyIsCanceled p =>
      rw [hp] at hs
      cases hs
      split_ifs
      · exact h.leave (by rw [hp]; rfl) false
      · exact h.goPlain hp (.inr rfl) (fun y => by cases y <;> rfl) rfl rfl
  | readyRelease p =>
      simp only [Undisturbed, hp] at hg
      rw [hp] at hs
      cases hs
      split_ifs with hlast
      · exact h.readyRelease hp hlast (hg hlast)
      · exact h.goPlain hp (.inr rfl) (fun y => by cases y <;> rfl) rfl rfl
  | suspend p =>
      rw [hp] at hs
      cases hs
      split_ifs
      · exact h.leave (by rw [hp]; rfl) false
      · exact h.goPlain hp (.inr rfl) (fun y => by cases y <;> rfl) rfl rfl
  | suspendIsCanceled p mustSuspend =>
      rw [hp] at hs
      cases hs
      split_ifs
      · exact h.leave (by rw [hp]; rfl) mustSuspend
      · exact h.goPlain hp (.inr rfl) (fun y => by cases y <;> rfl) rfl rfl
  | loadCount p mustSuspend =>
      rw [hp] at hs
      cases hs
      refine h.go hp (.inr rfl) (fun y => by cases y <;> rfl) (.inr ⟨rfl, rfl⟩)
        ⟨fun n hn => ?_, nofun, fun hl => ?_, nofun, nofun, fun _ => rfl⟩
      · obtain rfl : s.count = n := Option.some.inj hn
        exact h.calls.count_lt p
      · exact of_decide_eq_true hl
  | isCanceled p mustSuspend count =>
      rw [hp] at hs hfits
      cases hs
      split_ifs
      · exact h.leave (by rw [hp]; rfl) mustSuspend
      · exact h.go hp (.inr rfl) (fun y => by cases y <;> rfl) (.inr ⟨rfl, rfl⟩)
          ⟨hfits.localCount_lt, nofun, hfits.last, nofun, nofun, fun _ => rfl⟩
  | enqueue p mustSuspend count =>
      rw [hp] at hs
      cases hs
      exact h.enqueue hp
  | isCanceledAgain p mustSuspend count =>
      rw [hp] at hs hfits
      cases hs
      split_ifs with hc
      · exact h.go hp (.inl rfl) (fun y => by cases y <;> rfl) (.inr ⟨rfl, rfl⟩)
          ⟨nofun, nofun, nofun, fun _ => hc, nofun, fun _ => rfl⟩
      · exact h.go hp (.inl rfl) (fun y => by cases y <;> rfl) (.inl rfl)
          ⟨hfits.localCount_lt, nofun, hfits.last, nofun, nofun, fun _ => rfl⟩
  | arrive p mustSuspend count =>
      rw [hp] at hs hfits
      cases hs
      have hlt := hfits.localCount_lt count rfl
      split_ifs with h₁ h₂ h₃
      · omega
      · exact h.go hp (.inl rfl) (fun y => by cases y <;> rfl) (.inl rfl)
          ⟨nofun, nofun, fun _ => hfits.last (decide_eq_true h₂), nofun, nofun, fun _ => rfl⟩
      · refine h.go hp (.inl rfl) (fun y => by cases y <;> rfl) (.inl rfl)
          ⟨fun n hn => ?_, nofun, fun hl => ?_, nofun, nofun, fun _ => rfl⟩
        · obtain rfl : s.count = n := Option.some.inj hn
          exact h.calls.count_lt p
        · exact of_decide_eq_true hl
      · exact h.increment hp (by by_contra hne; exact h₃ (.inr hne)) h₂
  | assertCount p =>
      rw [hp] at hs
      cases hs
      rw [if_pos (h.calls.count_lt p)]
      exact h.goPlain hp (.inl rfl) (fun y => by cases y <;> rfl) rfl rfl
  | releaseLoad p mustSuspend =>
      simp only [Undisturbed, hp] at hg
      rw [hp] at hs hfits
      cases hs
      have hlast := hfits.last rfl
      rw [if_pos hlast]
      exact h.releaseLoad hp (hg hlast)
  | releaseStore releaser =>
      rw [hp] at hs
      cases hs
      exact h.releaseStore hp
  | releaseDequeue releaser left =>
      rw [hp] at hs
      cases left with
      | zero =>
          cases hs
          exact h.returnRelease hp
      | succ left =>
          cases hlist : s.waitList with
          | nil =>
              have hrole : (s.call t).role = .releasing releaser (left + 1) none := by rw [hp]; rfl
              obtain ⟨_, k, hk⟩ := h.round_of_releases (t := t) (by rw [hrole]; rfl)
              have hle := hk.le
              have hleft := ((hk.fits t).releasing releaser (left + 1) none hrole).1
              rw [hlist, List.length_nil] at hle
              omega
          | cons node rest =>
              simp only [AsyncBarrier.callStep, hlist] at hs
              cases hs
              exact h.take hp hlist
  | releaseSchedule releaser node left =>
      rw [hp] at hs
      cases hs
      exact h.schedule hp
  | cancelIsCanceled =>
      rw [hp] at hs
      cases hs
      split_ifs <;>
        exact h.goPlain hp (.inl rfl) (fun y => by cases y <;> rfl) rfl rfl
  | cancelMark =>
      rw [hp] at hs
      cases hs
      exact h.cancelMark hp
  | drainDequeue =>
      simp only [Undisturbed, hp] at hg
      rw [hp] at hs
      cases hlist : s.waitList with
      | nil =>
          simp only [AsyncBarrier.callStep, hlist] at hs
          cases hs
          exact h.goPlain hp (.inl rfl) (fun y => by cases y <;> rfl) rfl rfl
      | cons node rest =>
          simp only [AsyncBarrier.callStep, hlist] at hs
          cases hs
          exact h.drain hp hlist (hg (by rw [hlist]; exact List.cons_ne_nil _ _))
  | drainSchedule node =>
      rw [hp] at hs
      cases hs
      exact h.drainSchedule hp

theorem Inv.step {a : Action Thread P} (h : Inv s) (hg : Undisturbed s a)
    (hs : step s a = some s') : Inv s' := by
  cases a with
  | await p t =>
      obtain ⟨⟨hco, hp⟩, he⟩ := Option.ite_none_right_eq_some.mp hs
      cases he
      exact h.await hco hp
  | resume p =>
      obtain ⟨hco, he⟩ := Option.ite_none_right_eq_some.mp hs
      cases he
      exact h.resume hco _
  | cancel t =>
      obtain ⟨hp, he⟩ := Option.ite_none_right_eq_some.mp hs
      cases he
      exact h.goPlain hp (.inl rfl) (fun y => by cases y <;> rfl) rfl rfl
  | call t advice spurious => exact h.callStep hg hs

omit [DecidableEq Thread] [DecidableEq P] in
theorem inv_initial {capacity : ℕ} (hcard : Fintype.card P ≤ capacity) :
    Inv (initial capacity : State Thread P) where
  participants := hcard
  arrivals := {
    ledger := .of_empty (fun _ => rfl) (fun h => by cases h.2 <;> rfl) fun _ => rfl
    place := fun p hp => absurd hp (lt_irrefl 0)
    awaits := nofun
    unique := nofun }
  calls := {
    count_lt := fun p => lt_of_lt_of_le (Fintype.card_pos_iff.mpr ⟨p⟩) hcard
    drained := nofun
    fits := fun _ => Call.fits_of_plain rfl }
  round _ := ⟨0, ⟨by simp [initial], Nat.le_refl 0, nofun, nofun, nofun, fun _ => Nat.le_refl 0,
    fun _ => Nat.le_refl 0⟩, fun _ => rfl, fun _ => .away, nofun, nofun⟩

theorem inv_of_reachWhile {capacity : ℕ} (hcard : Fintype.card P ≤ capacity)
    (hs : (system Thread P capacity).ReachWhile Undisturbed s) : Inv s := by
  refine hs.invariant (fun s h => ?_) fun s a s' hi hg ha => hi.step hg ha
  obtain rfl : s = initial capacity := h
  exact inv_initial hcard

end LevelzAsync.AsyncBarrier
