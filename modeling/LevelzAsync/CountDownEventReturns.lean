import LevelzAsync.CountDownEventFlow
import LevelzAsync.CountDownEventWakeUps

/-!
# Calls of the counting event return, and leave nobody behind

A thread inside `resumeWaiting` goes round its loop again only for a coroutine that it has
scheduled, or because the count has changed; the exchanges of `countUp` and `countDown`
are repeated only because the count has changed, and each call changes it once; `remove`
looks at a bounded number of coroutines. So without new calls all calls return. When they
have, and the count is zero, nobody waits.
-/

namespace LevelzAsync.CountDownEvent

variable {Thread Co : Type*}

namespace Call

def hands (p : Call Co) : ℕ := p.resumes.isSome.toNat + p.removes.isSome.toNat

/-- How often the call may still change the count. -/
def changes : Call Co → ℕ
  | countDownLoad | countDownCas _ | countUpLoad | countUpCas _ => 1
  | _ => 0

/-- Steps left to the call for the value that the count has, not reckoning what it still
does with the coroutines of the wait list. -/
def distance (count : ℕ) : Call Co → ℕ
  | idle => 0
  | cancelSchedule _ => 1
  | countDownCas prevCount | countUpCas prevCount => if prevCount = count then 1 else 2
  | countDownLoad | countUpLoad => 3
  | resumeRecheck _ => if count = 0 then 8 else 2
  | resumeListCountUp _ => if count = 0 then 9 else 3
  | resumeEnqueue _ _ => if count = 0 then 10 else 4
  | resumeSchedule _ _ => 3
  | resumeIsZero _ _ => 5
  | resumeListCount _ _ => 6
  | resumeDequeue _ => 7
  | enqueueRecheck | removeRecheck _ _ => 8
  | enqueueListCount => 9
  | enqueuePush _ => 18
  | enqueueIsZero _ => 19
  | removeDequeue _ left => 9 + 4 * left
  | removeListCountUp _ left => 10 + 4 * left
  | removeEnqueue _ _ left => 11 + 4 * left
  | removeListCount _ _ left => 12 + 4 * left
  | removeCount _ => 10 + 4 * 2 ^ 64
  | removeIsZero _ => 11 + 4 * 2 ^ 64

theorem distance_le (p : Call Co) (m n : ℕ) : p.distance m ≤ p.distance n + 6 := by
  cases p with
  | countDownCas | countUpCas | resumeRecheck | resumeListCountUp | resumeEnqueue =>
      simp only [distance]
      split_ifs <;> omega
  | _ => exact Nat.le_add_right _ 6

/-- What is left to do for the call and for the coroutines in its hands. -/
def left (count : ℕ) (p : Call Co) : ℕ := p.distance count + 8 * p.hands

end Call

variable [DecidableEq Thread] {s s' : State Thread Co} {t : Thread} {c : Co} {p q : Call Co}
  {caller : Caller Co}

/-- What a step brings the call nearer to: it has changed the count, or nothing is left of
the call, or less is left to do. -/
structure Nearer (s s' : State Thread Co) (t : Thread) (q p : Call Co) : Prop where
  call : s'.call = Function.update s.call t p
  nearer : p.changes < q.changes ∧ p.left s.count ≤ 7 ∧ s'.waitQueue = s.waitQueue ∨
    s'.count = s.count ∧ p.changes = q.changes ∧
      p.left s.count + 8 * s'.waitQueue.length < q.left s.count + 8 * s.waitQueue.length

theorem Call.left_lt {count : ℕ} (hhands : p.hands = q.hands)
    (hdistance : p.distance count < q.distance count) : p.left count < q.left count := by
  unfold Call.left
  omega

theorem Nearer.go (hcall : s'.call = Function.update s.call t p) (hcount : s'.count = s.count)
    (hqueue : s'.waitQueue = s.waitQueue) (hchanges : p.changes = q.changes)
    (hleft : p.left s.count < q.left s.count) : Nearer s s' t q p :=
  ⟨hcall, .inr ⟨hcount, hchanges, by rw [hqueue]; exact Nat.add_lt_add_right hleft _⟩⟩

/-- The call has no coroutine of `resumeWaiting` in its hand when that returns. -/
theorem returnResume_nearer (hchanges : q.changes = 0) (hremoves : q.removes = caller.held)
    (hdistance : 1 < q.distance s.count) : ∃ p, Nearer s (s.returnResume t caller) t q p := by
  have hidle : (Call.idle : Call Co).left s.count < q.left s.count := by
    have h0 : (Call.idle : Call Co).left s.count = 0 := rfl
    unfold Call.left at h0 ⊢
    omega
  cases caller with
  | countDown | enqueue => exact ⟨_, .go rfl rfl rfl hchanges.symm hidle⟩
  | remove c removed =>
      cases removed with
      | false => exact ⟨_, .go rfl rfl rfl hchanges.symm hidle⟩
      | true =>
          refine ⟨_, .go rfl rfl rfl hchanges.symm ?_⟩
          have h1 : (Call.cancelSchedule c : Call Co).left s.count = 9 := rfl
          have hhands : 1 ≤ q.hands := by
            unfold Call.hands
            rw [hremoves]
            exact Nat.le_add_left 1 _
          unfold Call.left at h1 ⊢
          simp only [reduceIte]
          omega

variable [DecidableEq Co]

theorem callStep_nearer (h : callStep s t false (s.call t) = some s') :
    ∃ p, Nearer s s' t (s.call t) p := by
  cases hp : s.call t with rw [hp] at h
  | idle => cases h
  | countDownLoad | countUpLoad =>
      cases h
      refine ⟨_, .go rfl rfl rfl rfl (Call.left_lt rfl ?_)⟩
      simp [Call.distance]
  | countDownCas prevCount =>
      cases h
      split_ifs with hzero hfails
      · exact ⟨_, rfl, .inl ⟨Nat.one_pos, Nat.zero_le 7, rfl⟩⟩
      · refine ⟨_, .go rfl rfl rfl rfl (Call.left_lt rfl ?_)⟩
        have hne : prevCount ≠ s.count := fun he => by simp [he] at hfails
        simp [Call.distance, hne]
      · refine ⟨_, rfl, .inl ⟨Nat.one_pos, le_rfl, rfl⟩⟩
      · exact ⟨_, rfl, .inl ⟨Nat.one_pos, Nat.zero_le 7, rfl⟩⟩
  | countUpCas prevCount =>
      cases h
      split_ifs with hmax hfails
      · exact ⟨_, rfl, .inl ⟨Nat.one_pos, Nat.zero_le 7, rfl⟩⟩
      · refine ⟨_, .go rfl rfl rfl rfl (Call.left_lt rfl ?_)⟩
        have hne : prevCount ≠ s.count := fun he => by simp [he] at hfails
        simp [Call.distance, hne]
      · exact ⟨_, rfl, .inl ⟨Nat.one_pos, Nat.zero_le 7, rfl⟩⟩
  | enqueueIsZero c =>
      cases h
      split_ifs
      · exact ⟨_, .go rfl rfl rfl rfl (Nat.succ_pos 18)⟩
      · exact ⟨_, .go rfl rfl rfl rfl (Nat.lt_succ_self 18)⟩
  | enqueuePush c =>
      cases h
      refine ⟨_, rfl, .inr ⟨rfl, rfl, ?_⟩⟩
      rw [List.length_append, List.length_singleton]
      change 9 + 8 * (s.waitQueue.length + 1) < 18 + 8 * s.waitQueue.length
      omega
  | enqueueListCount =>
      cases h
      exact ⟨_, .go rfl rfl rfl rfl (Nat.lt_succ_self 8)⟩
  | enqueueRecheck =>
      cases h
      split_ifs
      · exact ⟨_, .go rfl rfl rfl rfl (Nat.lt_succ_self 7)⟩
      · exact ⟨_, .go rfl rfl rfl rfl (Nat.succ_pos 7)⟩
  | resumeDequeue caller =>
      cases hqueue : s.waitQueue with
      | nil =>
          simp only [CountDownEvent.callStep, hqueue] at h
          cases h
          exact returnResume_nearer rfl rfl (Nat.le_of_ble_eq_true rfl)
      | cons node rest =>
          simp only [CountDownEvent.callStep, hqueue] at h
          cases h
          refine ⟨_, rfl, .inr ⟨rfl, rfl, ?_⟩⟩
          rw [hqueue, List.length_cons]
          simp only [Call.left, Call.hands, Call.distance, Call.resumes, Call.removes]
          simp only [Option.isSome_some, Option.isSome_none, Bool.toNat_true, Bool.toNat_false]
          omega
  | resumeListCount node caller =>
      cases h
      exact ⟨_, .go rfl rfl rfl rfl (Call.left_lt rfl (Nat.lt_succ_self 5))⟩
  | resumeIsZero node caller =>
      cases h
      unfold State.isZero
      by_cases hzero : s.count = 0
      · rw [if_pos (decide_eq_true hzero)]
        exact ⟨_, .go rfl rfl rfl rfl (Call.left_lt rfl (Nat.le_of_ble_eq_true rfl))⟩
      · rw [if_neg (by simpa using hzero)]
        refine ⟨_, .go rfl rfl rfl rfl (Call.left_lt rfl ?_)⟩
        simp [Call.distance, hzero]
  | resumeEnqueue node caller =>
      cases h
      refine ⟨_, rfl, .inr ⟨rfl, rfl, ?_⟩⟩
      rw [List.length_append, List.length_singleton]
      simp only [Call.left, Call.hands, Call.distance, Call.resumes, Call.removes]
      simp only [Option.isSome_some, Option.isSome_none, Bool.toNat_true, Bool.toNat_false]
      split_ifs <;> omega
  | resumeListCountUp caller =>
      cases h
      refine ⟨_, .go rfl rfl rfl rfl (Call.left_lt rfl ?_)⟩
      simp only [Call.distance]
      split_ifs <;> omega
  | resumeSchedule node caller =>
      cases h
      refine ⟨_, .go rfl rfl rfl rfl ?_⟩
      simp only [Call.left, Call.hands, Call.distance, Call.resumes, Call.removes]
      simp only [Option.isSome_some, Option.isSome_none, Bool.toNat_true, Bool.toNat_false]
      split_ifs <;> omega
  | resumeRecheck caller =>
      cases h
      unfold State.isZero
      by_cases hzero : s.count = 0
      · refine ⟨.resumeDequeue caller, ?_⟩
        rw [if_pos (decide_eq_true hzero)]
        refine .go rfl rfl rfl rfl (Call.left_lt rfl ?_)
        simp [Call.distance, hzero]
      · rw [if_neg (by simpa using hzero)]
        exact returnResume_nearer rfl rfl (by simp [Call.distance, hzero])
  | removeIsZero c =>
      cases h
      split_ifs
      · refine ⟨_, .go rfl rfl rfl rfl (Call.left_lt rfl ?_)⟩
        simp only [Call.distance]
        omega
      · refine ⟨_, .go rfl rfl rfl rfl (Call.left_lt rfl ?_)⟩
        simp only [Call.distance]
        omega
  | removeCount c =>
      cases h
      refine ⟨_, .go rfl rfl rfl rfl (Call.left_lt rfl ?_)⟩
      have hlt := (2 * s.listCount).toNat_lt
      simp only [Call.distance]
      omega
  | removeDequeue c left =>
      simp only [CountDownEvent.callStep] at h
      split at h
      next left node rest hqueue =>
        cases h
        refine ⟨_, rfl, .inr ⟨rfl, rfl, ?_⟩⟩
        rw [hqueue, List.length_cons]
        simp only [Call.left, Call.hands, Call.distance, Call.resumes, Call.removes]
        simp only [Option.isSome_some, Option.isSome_none, Bool.toNat_true, Bool.toNat_false]
        omega
      next =>
        cases h
        refine ⟨_, .go rfl rfl rfl rfl (Call.left_lt rfl ?_)⟩
        simp only [Call.distance]
        omega
  | removeListCount c node left =>
      cases h
      split_ifs
      · refine ⟨_, .go rfl rfl rfl rfl (Call.left_lt rfl ?_)⟩
        simp only [Call.distance]
        omega
      · exact ⟨_, .go rfl rfl rfl rfl (Call.left_lt rfl (Nat.add_lt_add_right (by decide) _))⟩
  | removeEnqueue c node left =>
      cases h
      refine ⟨_, rfl, .inr ⟨rfl, rfl, ?_⟩⟩
      rw [List.length_append, List.length_singleton]
      simp only [Call.left, Call.hands, Call.distance, Call.resumes, Call.removes]
      simp only [Option.isSome_some, Option.isSome_none, Bool.toNat_true, Bool.toNat_false]
      omega
  | removeListCountUp c left =>
      cases h
      exact ⟨_, .go rfl rfl rfl rfl (Call.left_lt rfl (Nat.add_lt_add_right (by decide) _))⟩
  | removeRecheck c removed =>
      cases h
      cases removed <;> split_ifs <;>
        exact ⟨_, .go rfl rfl rfl rfl (Call.left_lt rfl (Nat.le_of_ble_eq_true rfl))⟩
  | cancelSchedule c =>
      cases h
      exact ⟨_, .go rfl rfl rfl rfl (Nat.succ_pos 8)⟩

section Rank

variable [Fintype Thread]

/-- What is left to do for all threads: a change of the count puts every thread back by at
most six steps. -/
def State.rank (s : State Thread Co) : ℕ :=
  ∑ t, (s.call t).left s.count + 8 * s.waitQueue.length +
    (6 * Fintype.card Thread + 8) * ∑ t, (s.call t).changes

omit [DecidableEq Co] in
theorem Nearer.rank_lt (hn : Nearer s s' t (s.call t) p) : s'.rank < s.rank := by
  have hleft := sum_update_tally s.call (Call.left s.count) t p
  have hchanges := sum_update_tally s.call Call.changes t p
  rw [← hn.call] at hleft hchanges
  unfold State.rank
  rcases hn.nearer with ⟨hlt, hle, hqueue⟩ | ⟨hcount, heq, hlt⟩
  · have hback : ∑ u, (s'.call u).left s'.count ≤
        ∑ u, (s'.call u).left s.count + 6 * Fintype.card Thread := by
      have hsum : ∑ u, (s'.call u).left s'.count ≤ ∑ u, ((s'.call u).left s.count + 6) := by
        refine Finset.sum_le_sum fun u _ => ?_
        have hdistance := (s'.call u).distance_le s'.count s.count
        unfold Call.left
        omega
      rw [Finset.sum_add_distrib, Finset.sum_const_nat fun _ _ => rfl, Finset.card_univ] at hsum
      omega
    have hfewer : ∑ u, (s'.call u).changes + 1 ≤ ∑ u, (s.call u).changes := by omega
    have hmul := Nat.mul_le_mul_left (6 * Fintype.card Thread + 8) hfewer
    rw [Nat.mul_add, Nat.mul_one] at hmul
    rw [hqueue]
    omega
  · rw [heq] at hchanges
    have hsame : ∑ u, (s'.call u).changes = ∑ u, (s.call u).changes := by omega
    rw [hcount, hsame]
    omega

omit [DecidableEq Co] in
theorem State.rank_begin (hidle : s.call t = .idle) (hcall : s'.call = Function.update s.call t p)
    (hcount : s'.count = s.count) (hqueue : s'.waitQueue = s.waitQueue) :
    s'.rank = s.rank + p.left s.count + (6 * Fintype.card Thread + 8) * p.changes := by
  have hleft := sum_update_tally s.call (Call.left s.count) t p
  have hchanges := sum_update_tally s.call Call.changes t p
  rw [hidle, show (Call.idle : Call Co).left s.count = 0 from rfl, Nat.add_zero] at hleft
  rw [hidle, show (Call.idle : Call Co).changes = 0 from rfl, Nat.add_zero] at hchanges
  unfold State.rank
  rw [hcall, hcount, hqueue, hleft, hchanges, Nat.mul_add]
  omega

end Rank

section Awaits

/-- A coroutine awaits the event only while it is inside `enqueue` or was put into the wait
list and not scheduled. -/
def Awaited (s : State Thread Co) : Prop :=
  ∀ c, s.awaits c = true → s.schedules c < s.enqueues c ∨ ∃ t, (s.call t).asks = some c

omit [DecidableEq Co] in
theorem returnResume_awaits (s : State Thread Co) (t : Thread) (caller : Caller Co) :
    (s.returnResume t caller).awaits = s.awaits ∧
      (s.returnResume t caller).schedules = s.schedules := by
  cases caller <;> exact ⟨rfl, rfl⟩

/-- Who is about to make the coroutine cease to wait, or to tell it that it need not. -/
def Releases (s : State Thread Co) (t : Thread) (c : Co) : Prop :=
  s.call t = .enqueueIsZero c ∧ s.isZero = true ∨ (∃ caller, s.call t = .resumeSchedule c caller) ∨
    s.call t = .cancelSchedule c

theorem callStep_awaits {spurious : Bool} (h : callStep s t spurious (s.call t) = some s') :
    s'.awaits = s.awaits ∧ s'.schedules = s.schedules ∧ (∀ c, ¬Releases s t c) ∨
      ∃ d, s'.awaits = Function.update s.awaits d false ∧ Releases s t d ∧
        ∀ c, c ≠ d → s'.schedules c = s.schedules c := by
  unfold Releases
  cases hp : s.call t with rw [hp] at h
  | idle => cases h
  | enqueueIsZero d =>
      cases h
      split_ifs with hzero
      · exact .inr ⟨d, rfl, .inl ⟨rfl, hzero⟩, fun _ _ => rfl⟩
      · refine .inl ⟨rfl, rfl, fun c => ?_⟩
        simp [hzero]
  | resumeSchedule d caller =>
      cases h
      refine .inr ⟨d, rfl, .inr (.inl ⟨caller, rfl⟩), fun c hne => ?_⟩
      simp only [State.schedules, Function.update_of_ne hne]
      rfl
  | cancelSchedule d =>
      cases h
      refine .inr ⟨d, rfl, .inr (.inr rfl), fun c hne => ?_⟩
      simp only [State.schedules, Function.update_of_ne hne]
      rfl
  | resumeDequeue caller =>
      obtain ⟨hawaits, hschedules⟩ := returnResume_awaits s t caller
      cases hqueue : s.waitQueue with
      | nil =>
          simp only [CountDownEvent.callStep, hqueue] at h
          cases h
          exact .inl ⟨hawaits, hschedules, by simp⟩
      | cons node rest =>
          simp only [CountDownEvent.callStep, hqueue] at h
          cases h
          exact .inl ⟨rfl, rfl, by simp⟩
  | resumeRecheck caller =>
      obtain ⟨hawaits, hschedules⟩ := returnResume_awaits s t caller
      cases h
      split_ifs
      · exact .inl ⟨rfl, rfl, by simp⟩
      · exact .inl ⟨hawaits, hschedules, by simp⟩
  | removeRecheck d removed =>
      cases h
      cases removed <;> split_ifs <;> exact .inl ⟨rfl, rfl, by simp⟩
  | countDownCas prevCount | countUpCas prevCount =>
      cases h
      split_ifs <;> exact .inl ⟨rfl, rfl, by simp⟩
  | removeDequeue d left =>
      simp only [CountDownEvent.callStep] at h
      split at h <;> cases h <;> exact .inl ⟨rfl, rfl, by simp⟩
  | _ =>
      cases h
      exact .inl ⟨rfl, rfl, by simp⟩

/-- A coroutine that still awaits the event was not released by the step. -/
theorem awaits_of_callStep {spurious : Bool} (h : callStep s t spurious (s.call t) = some s')
    (hc : s'.awaits c = true) :
    s.awaits c = true ∧ s'.schedules c = s.schedules c ∧ ¬Releases s t c := by
  rcases callStep_awaits h with ⟨hawaits, hschedules, hnot⟩ | ⟨d, hawaits, hd, hschedules⟩
  · exact ⟨hawaits ▸ hc, congrFun hschedules c, hnot c⟩
  · have hne : c ≠ d := by
      rintro rfl
      rw [hawaits, Function.update_self] at hc
      cases hc
    rw [hawaits, Function.update_of_ne hne] at hc
    refine ⟨hc, hschedules c hne, fun hreleases => hne ?_⟩
    unfold Releases at hd hreleases
    rcases hd with ⟨hp, -⟩ | ⟨_, hp⟩ | hp <;> rw [hp] at hreleases <;> simp at hreleases
    · exact hreleases.1.symm
    · exact hreleases.symm
    · exact hreleases.symm

theorem Awaited.callStep (hs : Awaited s) (hw : Waits s) {spurious : Bool}
    (h : callStep s t spurious (s.call t) = some s') : Awaited s' := by
  intro c hc
  obtain ⟨hbefore, hschedules, hnot⟩ := awaits_of_callStep h hc
  obtain ⟨p, hf⟩ := callStep_flow h
  have hle := hw.ledger.left_le c
  have hcall : s'.call t = p := by rw [hf.call, Function.update_self]
  by_cases hasks : p.asks = some c
  · exact .inr ⟨t, hcall ▸ hasks⟩
  -- who does not ask any more has entered the list
  have hgain : s'.enqueues c = s.enqueues c + inHand (s.call t).asks c := by
    rcases hf.asks c with he | ⟨hp, hzero, -, -⟩
    · have hin : inHand p.asks c = 0 := if_neg hasks
      omega
    · exact absurd (.inl ⟨hp, hzero⟩) hnot
  rw [hschedules, hgain]
  rcases hs c hbefore with hlt | ⟨u, hu⟩
  · exact .inl (hlt.trans_le (Nat.le_add_right _ _))
  · by_cases hut : u = t
    · subst hut
      rw [hu, show inHand (some c) c = 1 from if_pos rfl]
      exact .inl (Nat.lt_succ_of_le hle)
    · refine .inr ⟨u, ?_⟩
      rw [hf.call, Function.update_of_ne hut]
      exact hu

theorem Awaited.step (hs : Awaited s) (hw : Waits s) {a : Action Thread Co}
    (h : step s a = some s') : Awaited s' := by
  have hbegin : ∀ {t : Thread} {p : Call Co}, s.call t = .idle → Awaited (s.go t p) := by
    intro t p hidle c hc
    refine (hs c hc).imp_right fun ⟨u, hu⟩ => ⟨u, ?_⟩
    have hut : u ≠ t := by
      rintro rfl
      rw [hidle] at hu
      cases hu
    exact (congrArg Call.asks (Function.update_of_ne hut ..)).trans hu
  cases a with
  | countDown t | countUp t | cancel _ t =>
      obtain ⟨hidle, he⟩ := Option.ite_none_right_eq_some.mp h
      cases he
      exact hbegin hidle
  | enqueue d t =>
      obtain ⟨⟨hidle, -⟩, he⟩ := Option.ite_none_right_eq_some.mp h
      cases he
      intro c hc
      by_cases hcd : c = d
      · subst hcd
        have hself : Function.update s.call t (.enqueueIsZero c) t = .enqueueIsZero c :=
          Function.update_self ..
        exact .inr ⟨t, congrArg Call.asks hself⟩
      · have hold : Function.update s.awaits d true c = true := hc
        rw [Function.update_of_ne hcd] at hold
        exact hbegin hidle c hold
  | call t spurious => exact hs.callStep hw h

theorem awaited_of_reach (hs : (system Thread Co).Reach s) : Awaited s := by
  have h : Waits s ∧ Awaited s := by
    refine hs.invariant (I := fun s => Waits s ∧ Awaited s) (fun s hstart => ?_)
      fun s a s' ⟨hw, h⟩ ha => ⟨hw.step ha, h.step hw ha⟩
    refine ⟨waits_of_reach (.start hstart), ?_⟩
    obtain ⟨_, _, rfl⟩ := hstart
    exact fun _ hc => nomatch hc
  exact h.2

end Awaits

/-- With no call in progress, nobody awaits an event whose count is zero. -/
theorem nobody_waits_of_idle (hs : (system Thread Co).Reach s) (hidle : ∀ t, s.call t = .idle)
    (hzero : s.count = 0) :
    s.waitQueue = [] ∧ ∀ c, s.awaits c = false ∧ s.schedules c = s.enqueues c := by
  have hempty : s.waitQueue = [] := by
    by_contra hne
    obtain ⟨t, ht⟩ := watched_of_reach hs hzero hne
    rw [hidle t] at ht
    cases ht
  have hholds : ∀ h, s.holds h = none := by
    rintro ⟨t, hand⟩
    unfold State.holds
    rw [hidle t]
    cases hand <;> rfl
  have heq : ∀ c, s.enqueues c = s.schedules c := fun c =>
    (waits_of_reach hs).ledger.outside c (not_inCustody_of_empty (fun _ => hempty) hholds)
  refine ⟨hempty, fun c => ⟨?_, (heq c).symm⟩⟩
  by_contra hawaits
  rcases awaited_of_reach hs c (Bool.eq_true_of_not_eq_false hawaits) with hlt | ⟨t, ht⟩
  · exact absurd (heq c) hlt.ne'
  · rw [hidle t] at ht
    cases ht

theorem callStep_isSome (ht : s.call t ≠ .idle) :
    ∃ s', callStep s t false (s.call t) = some s' := by
  cases hp : s.call t with
  | idle => exact absurd hp ht
  | _ => exact ⟨_, rfl⟩

/-- Without new calls all calls of the event return, from every reachable state and in
whatever order the threads go on. If the count is zero then, the wait list is empty and every
coroutine that was put into it has been scheduled and awaits the event no more. -/
theorem calls_return_and_wake [Fintype Thread] (hs : (system Thread Co).Reach s) :
    (system Thread Co).Inevitable (fun a => ∃ t, a = .call t false)
      (fun s' => (∀ t, s'.call t = .idle) ∧ (s'.count = 0 →
        s'.waitQueue = [] ∧ ∀ c, s'.awaits c = false ∧ s'.schedules c = s'.enqueues c)) s := by
  refine StepSystem.inevitable_at_rest (R := fun s' => ∀ t, s'.call t = .idle) State.rank
    (fun s' _ hbusy => ?_) (fun s₁ a s₂ hs₁ ⟨t, he⟩ ha => ?_)
    (fun s' hs' hidle => ⟨hidle, nobody_waits_of_idle hs' hidle⟩) hs
  · obtain ⟨t, ht⟩ := not_forall.mp hbusy
    obtain ⟨s'', ha⟩ := callStep_isSome ht
    exact ⟨.call t false, s'', ⟨t, rfl⟩, ha⟩
  · subst he
    obtain ⟨p, hn⟩ := callStep_nearer ha
    exact ⟨hs₁.step ha, hn.rank_lt⟩

/-- A `countDown` is about to look at the list while a coroutine is being put into it. -/
theorem calls_return_and_wake_both : ∃ s : State (Fin 2) Unit,
    s.call 0 = .resumeDequeue .countDown ∧ s.call 1 = .enqueuePush () ∧ s.count = 0 ∧
      (system (Fin 2) Unit).Inevitable (fun a => ∃ t, a = .call t false)
        (fun s' => (∀ t, s'.call t = .idle) ∧ (s'.count = 0 →
          s'.waitQueue = [] ∧ ∀ c, s'.awaits c = false ∧ s'.schedules c = s'.enqueues c)) s := by
  obtain ⟨s, hr, h₀, h₁, hzero⟩ := StepSystem.Reach.exists_of_exec (M := system (Fin 2) Unit)
    (P := fun s => s.call 0 = .resumeDequeue .countDown ∧ s.call 1 = .enqueuePush () ∧
      s.count = 0) (s := initial false 1) (.start ⟨_, _, rfl⟩)
    [.enqueue () 1, .call 1 false, .countDown 0, .call 0 false, .call 0 false] (by decide)
  exact ⟨s, h₀, h₁, hzero, calls_return_and_wake hr⟩

end LevelzAsync.CountDownEvent
