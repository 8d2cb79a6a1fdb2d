import LevelzAsync.AsyncBarrierInvariant

/-!
# Every step of the barrier keeps its rounds

The releaser has found that all the other participants have incremented
`m_count`, so that it is alone and the nodes that it has to take are those of the
others and its own. Participants that arrive while it takes them are put behind.
-/

namespace LevelzAsync.AsyncBarrier

variable {Thread P : Type*} {s s' : State Thread P} {t : Thread} {c : Call P} {p : P} {k k' : ℕ}
  {r : Role P}

namespace Role.Fits

theorem away : (Role.away : Role P).Fits s k := ⟨nofun, nofun, nofun, nofun⟩

theorem mono (h : r.Fits s k) (hcounted : s'.counted = s.counted)
    (htake : s'.waitList.take k = s.waitList.take k)
    (hdrop : s.waitList.drop k ⊆ s'.waitList.drop k) (hlist : s.waitList ⊆ s'.waitList)
    (harrived : ∀ p, s.arrived p ≤ s'.arrived p) (hreleased : s'.released = s.released)
    (hrounds : s'.rounds = s.rounds) : r.Fits s' k where
  uncounted p hp := hcounted ▸ h.uncounted p hp
  entering p hp := hdrop (h.entering p hp)
  storing releaser hp := by
    obtain ⟨h₁, h₂, h₃, h₄⟩ := h.storing releaser hp
    refine ⟨hcounted ▸ h₁, fun p hp => hlist (h₂ p hp), ?_, h₄⟩
    have := harrived releaser.participant
    omega
  releasing releaser left node hp := by
    rw [hreleased, hrounds, htake]
    exact h.releasing releaser left node hp

theorem of_not_releases (h : r.Fits s k) (hr : r.releases = false)
    (hcounted : s'.counted = s.counted) (hdrop : s.waitList.drop k ⊆ s'.waitList.drop k') :
    r.Fits s' k' where
  uncounted p hp := hcounted ▸ h.uncounted p hp
  entering p hp := hdrop (h.entering p hp)
  storing releaser hp := by
    rw [hp] at hr
    cases hr
  releasing releaser left node hp := by
    rw [hp] at hr
    cases hr

end Role.Fits

theorem Role.uncounted_of_releases (h : r.releases = true) : ∃ p, r.uncounted = some p := by
  cases r <;> first | exact ⟨_, rfl⟩ | cases h

theorem Releaser.take_role [DecidableEq P] (node : P) (left : ℕ) (releaser : Releaser P) :
    ∃ releaser' node', (releaser.take node left).role = .releasing releaser' left node' ∧
      releaser'.participant = releaser.participant ∧
      (∀ p, releaser'.queued = some p → releaser.queued = some p ∧ p ≠ node) ∧
      ∀ p, node' = some p → p = node := by
  cases releaser with
  | ready p => exact ⟨.ready p, some node, rfl, rfl, nofun, fun q hq => (Option.some.inj hq).symm⟩
  | suspend p mustSuspend skipped =>
      by_cases hp : node = p
      · exact ⟨.suspend p mustSuspend true, none, by simp [Releaser.take, hp, Call.role], rfl,
          nofun, nofun⟩
      · refine ⟨.suspend p mustSuspend skipped, some node, by simp [Releaser.take, hp, Call.role],
          rfl, fun q hq => ⟨hq, ?_⟩, fun q hq => (Option.some.inj hq).symm⟩
        cases skipped
        · obtain rfl : p = q := Option.some.inj hq
          exact Ne.symm hp
        · cases hq

/-- A participant that a call counts on to arrive is in the wait list or in the
hands of its releaser. -/
theorem inside_of_uncounted (ha : Arrivals s) (hr : Roles s k)
    (h : (s.call t).role.uncounted = some p) : s.released p < s.arrived p := by
  have hreleaser : ∀ releaser : Releaser P, releaser.participant = p →
      (s.call t).held .own = releaser.held → (∀ p, releaser.queued = some p → p ∈ s.waitList) →
      s.released p < s.arrived p := by
    intro releaser hp hheld hqueued
    subst hp
    rcases releaser.queued_or_held with hq | hq
    · exact ha.inside_of_mem (hqueued _ hq)
    · exact ha.inside_of_held (hheld.trans hq)
  have hfits := hr.fits t
  cases hrole : (s.call t).role with
  | away =>
      rw [hrole] at h
      cases h
  | entering q =>
      rw [hrole] at h
      cases h
      exact ha.inside_of_mem (List.mem_of_mem_drop (hfits.entering p hrole))
  | storing releaser =>
      rw [hrole] at h
      exact hreleaser releaser (Option.some.inj h) (Call.held_of_storing hrole)
        (hfits.storing releaser hrole).2.1
  | releasing releaser left node =>
      rw [hrole] at h
      exact hreleaser releaser (Option.some.inj h) (Call.held_of_releasing hrole).1 fun q hq =>
        List.mem_of_mem_take ((hfits.releasing releaser left node hrole).2.1 q hq)

section Changes

variable [DecidableEq Thread] {rest : List P} {releaser : Releaser P} {left : ℕ} {node : Option P}

theorem Roles.change (h : Roles s k) (hcall : s'.call = Function.update s.call t c)
    (hidle : (∀ u, (s'.call u).role.dequeues = false) → k' = 0)
    (hothers : ∀ u, u ≠ t → (s.call u).role.Fits s' k') (hself : c.role.Fits s' k')
    (hunique : ∀ u p, u ≠ t → c.role.uncounted = some p → (s.call u).role.uncounted ≠ some p)
    (halone : ∀ u, u ≠ t → c.role.releases = true → (s.call u).role.releases ≠ true) :
    Roles s' k' where
  idle := hidle
  fits u := by
    by_cases hu : u = t
    · subst hu
      rwa [hcall, Function.update_self]
    · rw [hcall, Function.update_of_ne hu]
      exact hothers u hu
  unique u v q hu hv := by
    rcases agent_cases (Q := fun c => c.role.uncounted = some q) hcall hu with ⟨rfl, hu⟩ | ⟨hut, hu⟩
    · rcases agent_cases (Q := fun c => c.role.uncounted = some q) hcall hv with
        ⟨rfl, _⟩ | ⟨hvt, hv⟩
      · rfl
      · exact absurd hv (hunique v q hvt hu)
    · rcases agent_cases (Q := fun c => c.role.uncounted = some q) hcall hv with ⟨rfl, hv⟩ | ⟨_, hv⟩
      · exact absurd hu (hunique u q hut hv)
      · exact h.unique u v q hu hv
  alone u v hu hv := by
    rcases agent_cases (Q := fun c => c.role.releases = true) hcall hu with ⟨rfl, hu⟩ | ⟨hut, hu⟩
    · rcases agent_cases (Q := fun c => c.role.releases = true) hcall hv with ⟨rfl, _⟩ | ⟨hvt, hv⟩
      · rfl
      · exact absurd hv (halone v hvt hu)
    · rcases agent_cases (Q := fun c => c.role.releases = true) hcall hv with ⟨rfl, hv⟩ | ⟨_, hv⟩
      · exact absurd hu (halone u hut hv)
      · exact h.alone u v hu hv

theorem Roles.shrink (h : Roles s k) (hcall : s'.call = Function.update s.call t c)
    (hidle : (∀ u, (s'.call u).role.dequeues = false) → k' = 0)
    (hothers : ∀ u, u ≠ t → (s.call u).role.Fits s' k') (hself : c.role.Fits s' k')
    (huncounted : ∀ p, c.role.uncounted = some p → (s.call t).role.uncounted = some p)
    (hreleases : c.role.releases = true → (s.call t).role.releases = true) : Roles s' k' :=
  h.change hcall hidle hothers hself
    (fun u p hu hp hq => hu (h.unique u t p hq (huncounted p hp)))
    fun u hu hp hq => hu (h.alone u t hq (hreleases hp))

variable [Fintype P]

namespace Round

theorem stay (h : Round s k) (hcall : s'.call = Function.update s.call t c)
    (hrole : c.role = (s.call t).role ∨ c.role = .away ∧ (s.call t).role.dequeues = false)
    (hcount : s'.count = s.count) (hcounted : s'.counted = s.counted)
    (hlist : s'.waitList = s.waitList) (harrived : s'.arrived = s.arrived)
    (hreleased : s'.released = s.released) (hrounds : s'.rounds = s.rounds) : Round s' k := by
  have hfits : ∀ {r : Role P}, r.Fits s k → r.Fits s' k := fun hf =>
    hf.mono hcounted (by rw [hlist]) (by rw [hlist]; exact List.Subset.refl _)
      (by rw [hlist]; exact List.Subset.refl _) (fun p => by rw [harrived]) hreleased hrounds
  refine ⟨⟨?_, ?_, ?_, ?_, ?_, ?_, ?_⟩, h.shrink hcall (fun hu => h.idle fun u => ?_)
    (fun u _ => hfits (h.fits u)) ?_ ?_ ?_⟩
  · rw [hcount, hcounted]
    exact h.count_eq
  · rw [hlist]
    exact h.le
  · rw [hcounted, hlist]
    exact h.counted
  · rw [hlist, hreleased, hrounds]
    exact h.old
  · rw [hlist, harrived, hrounds]
    exact h.fresh
  · rw [harrived, hrounds]
    exact h.rounds_le
  · rw [hreleased, hrounds]
    exact h.released_le
  · have hu := hu u
    rw [hcall] at hu
    by_cases hut : u = t
    · subst hut
      rw [Function.update_self] at hu
      rcases hrole with hrole | ⟨_, hrole⟩
      · rwa [hrole] at hu
      · exact hrole
    · rwa [Function.update_of_ne hut] at hu
  · rcases hrole with hrole | ⟨hrole, _⟩
    · rw [hrole]
      exact hfits (h.fits t)
    · rw [hrole]
      exact .away
  · rcases hrole with hrole | ⟨hrole, _⟩
    · exact fun p hp => hrole ▸ hp
    · rw [hrole]
      nofun
  · rcases hrole with hrole | ⟨hrole, _⟩
    · exact fun hp => hrole ▸ hp
    · rw [hrole]
      nofun

theorem enqueue (h : Round s k) (ha : Arrivals s)
    (hcall : s'.call = Function.update s.call t c) (hold : (s.call t).role = .away)
    (hnew : c.role = .entering p) (hp : s.arrived p = s.released p)
    (hlist : s'.waitList = s.waitList ++ [p]) (harrived : s'.arrived p = s.arrived p + 1)
    (hother : ∀ q, q ≠ p → s'.arrived q = s.arrived q) (hcount : s'.count = s.count)
    (hcounted : s'.counted = s.counted) (hreleased : s'.released = s.released)
    (hrounds : s'.rounds = s.rounds) : Round s' k := by
  have htake : s'.waitList.take k = s.waitList.take k := by
    rw [hlist, List.take_append_of_le_length h.le]
  have hdrop : s'.waitList.drop k = s.waitList.drop k ++ [p] := by
    rw [hlist, List.drop_append_of_le_length h.le]
  have hle : ∀ q, s.arrived q ≤ s'.arrived q := by
    intro q
    by_cases hq : q = p
    · subst hq
      omega
    · exact (hother q hq).ge
  have houtside : ∀ q ∈ s.waitList, q ≠ p := by
    rintro q hq rfl
    have := ha.inside_of_mem hq
    omega
  have hsub : s.waitList.drop k ⊆ s'.waitList.drop k := by
    rw [hdrop]
    exact List.subset_append_left _ _
  have hfits : ∀ {r : Role P}, r.Fits s k → r.Fits s' k := fun hf =>
    hf.mono hcounted htake hsub (hlist ▸ List.subset_append_left _ _) hle hreleased hrounds
  refine ⟨⟨?_, ?_, ?_, ?_, ?_, ?_, ?_⟩, h.change hcall (fun hu => h.idle fun u => ?_)
    (fun u _ => hfits (h.fits u)) ?_ ?_ ?_⟩
  · rw [hcount, hcounted]
    exact h.count_eq
  · have := h.le
    rw [hlist, List.length_append]
    omega
  · intro q hq
    exact hsub (h.counted q (hcounted ▸ hq))
  · rw [htake, hreleased, hrounds]
    exact h.old
  · intro q hq
    rw [hdrop, List.mem_append, List.mem_singleton] at hq
    rw [hrounds]
    rcases hq with hq | rfl
    · exact (h.fresh q hq).trans_le (hle q)
    · have := h.rounds_le q
      omega
  · intro q
    rw [hrounds]
    exact (h.rounds_le q).trans (hle q)
  · rw [hreleased, hrounds]
    exact h.released_le
  · have hu := hu u
    rw [hcall] at hu
    by_cases hut : u = t
    · subst hut
      rw [hold]
      rfl
    · rwa [Function.update_of_ne hut] at hu
  · rw [hnew]
    refine ⟨fun q hq => ?_, fun q hq => ?_, nofun, nofun⟩
    · obtain rfl : p = q := Option.some.inj hq
      rw [hcounted]
      by_contra hc
      exact houtside p (List.mem_of_mem_drop (h.counted p (by simpa using hc))) rfl
    · cases hq
      simp [hdrop]
  · intro u q _ hq hu
    rw [hnew] at hq
    obtain rfl : p = q := Option.some.inj hq
    have := inside_of_uncounted ha h.toRoles hu
    omega
  · rw [hnew]
    nofun

omit [DecidableEq Thread] in
/-- All participants but one have incremented `m_count` when one is missing. -/
theorem all_counted (h : Round s k) (hcard : Fintype.card P ≤ s.capacity)
    (hlast : s.count + 1 = s.capacity) (hp : s.counted p = false) :
    (∀ q, q ≠ p → s.counted q = true) ∧ s.capacity = Fintype.card P := by
  classical
  have hsub : (Finset.univ.filter fun q => s.counted q = true) ⊆ Finset.univ.erase p := by
    intro q hq
    rw [Finset.mem_filter] at hq
    rw [Finset.mem_erase]
    refine ⟨?_, Finset.mem_univ q⟩
    rintro rfl
    rw [hp] at hq
    cases hq.2
  have herase : (Finset.univ.erase p).card + 1 = Fintype.card P := by
    rw [Finset.card_erase_add_one (Finset.mem_univ p), Finset.card_univ]
  have hcount := h.count_eq
  have heq := Finset.eq_of_subset_of_card_le hsub (by omega)
  refine ⟨fun q hq => ?_, ?_⟩
  · have hmem : q ∈ Finset.univ.erase p := Finset.mem_erase.mpr ⟨hq, Finset.mem_univ q⟩
    rw [← heq, Finset.mem_filter] at hmem
    exact hmem.2
  · rw [heq] at hcount
    omega

/-- The last participant to arrive finds nobody else to release, and none that is going
to arrive. -/
theorem startRelease (h : Round s k) (hcard : Fintype.card P ≤ s.capacity)
    (hlast : s.count + 1 = s.capacity) (hcall : s'.call = Function.update s.call t c)
    (hold : (s.call t).role.dequeues = false) (hnew : c.role = .storing releaser)
    (huncounted : s.counted releaser.participant = false)
    (hunique : ∀ u, u ≠ t → (s.call u).role.uncounted ≠ some releaser.participant)
    (hqueued : ∀ p, releaser.queued = some p → p ∈ s.waitList) (hskipped : releaser.skipped = false)
    (harrived : ∀ p, s.arrived p ≤ s'.arrived p)
    (hlt : s.rounds < s'.arrived releaser.participant) (hcount : s'.count = s.count)
    (hcounted : s'.counted = s.counted) (hlist : s'.waitList = s.waitList)
    (hreleased : s'.released = s.released) (hrounds : s'.rounds = s.rounds) : Round s' k := by
  have hall := (h.all_counted hcard hlast huncounted).1
  have hfits : ∀ {r : Role P}, r.Fits s k → r.Fits s' k := fun hf =>
    hf.mono hcounted (by rw [hlist]) (by rw [hlist]; exact List.Subset.refl _)
      (by rw [hlist]; exact List.Subset.refl _) harrived hreleased hrounds
  refine ⟨⟨?_, ?_, ?_, ?_, ?_, ?_, ?_⟩, h.change hcall (fun hu => h.idle fun u => ?_)
    (fun u _ => hfits (h.fits u)) ?_ ?_ ?_⟩
  · rw [hcount, hcounted]
    exact h.count_eq
  · rw [hlist]
    exact h.le
  · rw [hcounted, hlist]
    exact h.counted
  · rw [hlist, hreleased, hrounds]
    exact h.old
  · intro q hq
    rw [hlist] at hq
    rw [hrounds]
    exact (h.fresh q hq).trans_le (harrived q)
  · intro q
    rw [hrounds]
    exact (h.rounds_le q).trans (harrived q)
  · rw [hreleased, hrounds]
    exact h.released_le
  · have hu := hu u
    rw [hcall] at hu
    by_cases hut : u = t
    · subst hut
      exact hold
    · rwa [Function.update_of_ne hut] at hu
  · rw [hnew]
    refine ⟨fun q hq => ?_, nofun, fun releaser' hr => ?_, nofun⟩
    · obtain rfl : releaser.participant = q := Option.some.inj hq
      rw [hcounted]
      exact huncounted
    · cases hr
      rw [hcounted, hlist, hrounds]
      exact ⟨hall, hqueued, hlt, hskipped⟩
  · intro u q hut hq
    rw [hnew] at hq
    obtain rfl : releaser.participant = q := Option.some.inj hq
    exact hunique u hut
  · intro u hut _ hu
    obtain ⟨q, hq⟩ := Role.uncounted_of_releases hu
    by_cases hqp : q = releaser.participant
    · exact hunique u hut (hqp ▸ hq)
    · have := (h.fits u).uncounted q hq
      rw [hall q hqp] at this
      cases this

theorem increment [DecidableEq P] (h : Round s k) (hcall : s'.call = Function.update s.call t c)
    (hold : (s.call t).role = .entering p) (hnew : c.role = .away) (hcount : s'.count = s.count + 1)
    (hcounted : s'.counted = Function.update s.counted p true) (hlist : s'.waitList = s.waitList)
    (harrived : s'.arrived = s.arrived) (hreleased : s'.released = s.released)
    (hrounds : s'.rounds = s.rounds) : Round s' k := by
  have hp : s.counted p = false := (h.fits t).uncounted p (by rw [hold]; rfl)
  have hmono : ∀ q, s.counted q = true → s'.counted q = true := by
    intro q hq
    rw [hcounted]
    by_cases hqp : q = p
    · rw [hqp, Function.update_self]
    · rwa [Function.update_of_ne hqp]
  refine ⟨⟨?_, ?_, ?_, ?_, ?_, ?_, ?_⟩, h.shrink hcall (fun hu => h.idle fun u => ?_)
    (fun u hut => ⟨fun q hq => ?_, fun q hq => ?_, fun releaser hr => ?_, ?_⟩) ?_ ?_ ?_⟩
  · have hfilter : (Finset.univ.filter fun q => s'.counted q = true) =
        insert p (Finset.univ.filter fun q => s.counted q = true) := by
      ext q
      by_cases hqp : q = p <;> simp [hcounted, hqp]
    rw [hcount, hfilter, Finset.card_insert_of_notMem (by simp [hp]), h.count_eq]
  · rw [hlist]
    exact h.le
  · intro q hq
    rw [hlist]
    by_cases hqp : q = p
    · rw [hqp]
      exact (h.fits t).entering p hold
    · rw [hcounted, Function.update_of_ne hqp] at hq
      exact h.counted q hq
  · rw [hlist, hreleased, hrounds]
    exact h.old
  · rw [hlist, harrived, hrounds]
    exact h.fresh
  · rw [harrived, hrounds]
    exact h.rounds_le
  · rw [hreleased, hrounds]
    exact h.released_le
  · have hu := hu u
    rw [hcall] at hu
    by_cases hut : u = t
    · subst hut
      rw [hold]
      rfl
    · rwa [Function.update_of_ne hut] at hu
  · have hqp : q ≠ p := by
      rintro rfl
      exact hut (h.unique u t q hq (by rw [hold]; rfl))
    rw [hcounted, Function.update_of_ne hqp]
    exact (h.fits u).uncounted q hq
  · rw [hlist]
    exact (h.fits u).entering q hq
  · obtain ⟨h₁, h₂, h₃⟩ := (h.fits u).storing releaser hr
    rw [hlist, harrived, hrounds]
    exact ⟨fun q hq => hmono q (h₁ q hq), h₂, h₃⟩
  · rw [hlist, hreleased, hrounds]
    exact (h.fits u).releasing
  · rw [hnew]
    exact .away
  · rw [hnew]
    nofun
  · rw [hnew]
    nofun

omit [DecidableEq Thread] in
/-- The nodes that the releaser is going to take are those in the wait list. -/
theorem length_waitList (h : Round s k) (ha : Arrivals s) (hcard : Fintype.card P ≤ s.capacity)
    (hlast : s.count + 1 = s.capacity) (hold : (s.call t).role = .storing releaser) :
    s.waitList.length = s.dequeCount releaser := by
  classical
  obtain ⟨hall, hqueued, _, hskipped⟩ := (h.fits t).storing releaser hold
  have hcapacity := (h.all_counted hcard hlast ((h.fits t).uncounted _ (by rw [hold]; rfl))).2
  have hmem : ∀ q, q ≠ releaser.participant → q ∈ s.waitList := fun q hq =>
    List.mem_of_mem_drop (h.counted q (hall q hq))
  rw [← List.toFinset_card_of_nodup (ha.ledger.nodup ())]
  cases releaser with
  | ready p =>
      have hp : p ∉ s.waitList := fun hp =>
        nomatch ha.ledger.unique p (.inl ()) (.inr (t, .own)) hp (Call.held_of_storing hold)
      have hset : s.waitList.toFinset = Finset.univ.erase p := by
        ext q
        rw [List.mem_toFinset, Finset.mem_erase]
        exact ⟨fun hq => ⟨fun he => hp (he ▸ hq), Finset.mem_univ q⟩, fun hq => hmem q hq.1⟩
      rw [hset, Finset.card_erase_of_mem (Finset.mem_univ p), Finset.card_univ, ← hcapacity]
      rfl
  | suspend p mustSuspend skipped =>
      obtain rfl : skipped = false := hskipped
      have hset : s.waitList.toFinset = Finset.univ := by
        ext q
        rw [List.mem_toFinset]
        refine ⟨fun _ => Finset.mem_univ q, fun _ => ?_⟩
        by_cases hq : q = p
        · exact hqueued q (by rw [hq]; rfl)
        · exact hmem q hq
      rw [hset, Finset.card_univ, ← hcapacity]
      rfl

theorem releaseStore (h : Round s k) (ha : Arrivals s) (hcard : Fintype.card P ≤ s.capacity)
    (hlast : s.count + 1 = s.capacity) (hold : (s.call t).role = .storing releaser)
    (hcall : s'.call = Function.update s.call t c)
    (hnew : c.role = .releasing releaser (s.dequeCount releaser) none) (hcount : s'.count = 0)
    (hcounted : s'.counted = fun _ => false) (hlist : s'.waitList = s.waitList)
    (harrived : s'.arrived = s.arrived) (hreleased : s'.released = s.released)
    (hrounds : s'.rounds = s.rounds + 1) : Round s' s.waitList.length := by
  obtain ⟨hall, hqueued, hlt, _⟩ := (h.fits t).storing releaser hold
  have hfalse : s.counted releaser.participant = false :=
    (h.fits t).uncounted _ (by rw [hold]; rfl)
  have hzero : k = 0 := h.idle fun u => by
    by_cases hut : u = t
    · rw [hut, hold]
      rfl
    · cases hrole : (s.call u).role with
      | releasing releaser' left' node' =>
          exact absurd (h.alone u t (by rw [hrole]; rfl) (by rw [hold]; rfl)) hut
      | _ => rfl
  have haway : ∀ u, u ≠ t → (s.call u).role = .away := by
    intro u hut
    have hnone : ∀ q, (s.call u).role.uncounted ≠ some q := by
      intro q hq
      by_cases hqp : q = releaser.participant
      · exact hut (h.unique u t q hq (by rw [hold, hqp]; rfl))
      · have := (h.fits u).uncounted q hq
        rw [hall q hqp] at this
        cases this
    cases hrole : (s.call u).role with
    | away => rfl
    | _ => exact absurd (by rw [hrole]; rfl) (hnone _)
  refine ⟨⟨?_, ?_, ?_, fun q _ => ?_, fun q hq => ?_, fun q => ?_, fun q => ?_⟩,
    h.shrink hcall (fun hu => ?_) (fun u hut => haway u hut ▸ .away) ?_ ?_ ?_⟩
  · simp [hcount, hcounted]
  · rw [hlist]
  · simp [hcounted]
  · have := h.released_le q
    rw [hreleased, hrounds]
    omega
  · rw [hlist, List.drop_length] at hq
    cases hq
  · rw [harrived, hrounds]
    by_cases hq : q = releaser.participant
    · rw [hq]
      omega
    · have hfresh := h.fresh q (h.counted q (hall q hq))
      omega
  · have := h.released_le q
    rw [hreleased, hrounds]
    omega
  · have := hu t
    rw [hcall, Function.update_self, hnew] at this
    cases this
  · rw [hnew]
    refine ⟨fun q _ => by rw [hcounted], nofun, nofun, fun releaser' left' node' hr => ?_⟩
    cases hr
    have := h.released_le releaser.participant
    rw [hlist, List.take_length, hreleased, hrounds]
    exact ⟨(h.length_waitList ha hcard hlast hold).symm, hqueued, by omega, nofun⟩
  · rw [hnew, hold]
    exact fun q hq => hq
  · rw [hold]
    exact fun _ => rfl

theorem take [DecidableEq P] {q : P} (h : Round s k)
    (hold : (s.call t).role = .releasing releaser (left + 1) none)
    (hcons : s.waitList = q :: rest) (hcall : s'.call = Function.update s.call t c)
    (hnew : c = releaser.take q left) (hcount : s'.count = s.count)
    (hcounted : s'.counted = s.counted) (hlist : s'.waitList = rest)
    (harrived : s'.arrived = s.arrived) (hreleased : s'.released = s.released)
    (hrounds : s'.rounds = s.rounds) : Round s' left := by
  obtain ⟨rfl, hqueued, hlt, _⟩ := (h.fits t).releasing releaser (left + 1) none hold
  obtain ⟨releaser', node', hrole, hparticipant, hqueued', hnode⟩ :=
    Releaser.take_role q left releaser
  rw [← hnew] at hrole
  have htake : s.waitList.take (left + 1) = q :: s'.waitList.take left := by
    rw [hcons, hlist, List.take_succ_cons]
  have hdrop : s.waitList.drop (left + 1) = s'.waitList.drop left := by
    rw [hcons, hlist, List.drop_succ_cons]
  have hothers : ∀ u, u ≠ t → (s.call u).role.releases = false := by
    intro u hut
    cases hrel : (s.call u).role.releases with
    | false => rfl
    | true => exact absurd (h.alone u t hrel (by rw [hold]; rfl)) hut
  refine ⟨⟨?_, ?_, ?_, fun p hp => ?_, ?_, ?_, ?_⟩, h.shrink hcall (fun hu => ?_)
    (fun u hut => (h.fits u).of_not_releases (hothers u hut) hcounted (by simp [hdrop])) ?_ ?_ ?_⟩
  · rw [hcount, hcounted]
    exact h.count_eq
  · have := h.le
    rw [hcons, List.length_cons] at this
    rw [hlist]
    omega
  · rw [hcounted, ← hdrop]
    exact h.counted
  · rw [hreleased, hrounds]
    exact h.old p (by rw [htake]; exact List.mem_cons_of_mem _ hp)
  · rw [harrived, hrounds, ← hdrop]
    exact h.fresh
  · rw [harrived, hrounds]
    exact h.rounds_le
  · rw [hreleased, hrounds]
    exact h.released_le
  · have := hu t
    rw [hcall, Function.update_self, hrole] at this
    cases this
  · rw [hrole]
    refine ⟨fun p hp => ?_, nofun, nofun, fun releaser'' left'' node'' hr => ?_⟩
    · rw [hcounted]
      exact (h.fits t).uncounted p (by rw [hold, ← hp]; exact congrArg some hparticipant.symm)
    · cases hr
      rw [hreleased, hrounds, hparticipant]
      refine ⟨rfl, fun p hp => ?_, hlt, fun p hp => ?_⟩
      · have hmem := hqueued p (hqueued' p hp).1
        rw [htake, List.mem_cons] at hmem
        exact hmem.resolve_left (hqueued' p hp).2
      · rw [hnode p hp]
        exact h.old q (by rw [htake]; exact List.mem_cons_self)
  · rw [hrole, hold]
    exact fun p hp => by rw [← hp]; exact congrArg some hparticipant.symm
  · rw [hold]
    exact fun _ => rfl

theorem letGo {q : P} (h : Round s k) (hcall : s'.call = Function.update s.call t c)
    (hreleases : (s.call t).role.releases = true) (hlt : s.released q < s.rounds)
    (hq : q ∉ s.waitList) (hcount : s'.count = s.count) (hcounted : s'.counted = s.counted)
    (hlist : s'.waitList = s.waitList) (harrived : s'.arrived = s.arrived)
    (hreleased : s'.released q = s.released q + 1)
    (hother : ∀ p, p ≠ q → s'.released p = s.released p) (hrounds : s'.rounds = s.rounds)
    (hidle : (∀ u, (s'.call u).role.dequeues = false) → k = 0) (hself : c.role.Fits s' k)
    (huncounted : ∀ p, c.role.uncounted = some p → (s.call t).role.uncounted = some p) :
    Round s' k := by
  have hothers : ∀ u, u ≠ t → (s.call u).role.releases = false := by
    intro u hut
    cases hrel : (s.call u).role.releases with
    | false => rfl
    | true => exact absurd (h.alone u t hrel hreleases) hut
  refine ⟨⟨?_, ?_, ?_, fun p hp => ?_, ?_, ?_, fun p => ?_⟩, h.shrink hcall hidle
    (fun u hut => (h.fits u).of_not_releases (hothers u hut) hcounted (by rw [hlist]; simp))
    hself huncounted fun _ => hreleases⟩
  · rw [hcount, hcounted]
    exact h.count_eq
  · rw [hlist]
    exact h.le
  · rw [hcounted, hlist]
    exact h.counted
  · rw [hlist] at hp
    rw [hrounds, hother p (fun he => hq (he ▸ List.mem_of_mem_take hp))]
    exact h.old p hp
  · rw [hlist, harrived, hrounds]
    exact h.fresh
  · rw [harrived, hrounds]
    exact h.rounds_le
  · rw [hrounds]
    by_cases hp : p = q
    · rw [hp, hreleased]
      omega
    · rw [hother p hp]
      exact h.released_le p

end Round

end Changes

end LevelzAsync.AsyncBarrier
