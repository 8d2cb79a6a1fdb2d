import LevelzAsync.AsyncMutexSafety

/-!
# Turns of the mutex

The loop of `lock` goes round again only because the owner word has changed between null
and not null. A coroutine that awaits the mutex becomes its owner at most once and gives it
up once, so there are no more such changes than that; everything else that the calls and the
coroutines do comes to an end.
-/

namespace LevelzAsync.AsyncMutex

variable {Thread Co : Type*}

/-- Coroutines and calls go on; no coroutine begins to await, and nobody cancels. The count
that `remove` reads is a `uint64_t`. -/
def Action.goesOn : Action Thread Co → Prop
  | .co _ _ spurious _ => spurious = false
  | .lock _ _ | .unlock _ _ => True
  | .call _ spurious bound => spurious = false ∧ bound < 2 ^ 64
  | _ => False

namespace CoPc

def mayAcquire : CoPc → Bool
  | readyAbandoned | readyCancelled | readyMutex | tryLoad | tryCas | suspendCancelled
  | suspendStatus _ | suspendMutex | suspendMark | callLock | waiting => true
  | _ => false

def comesToUnlock : CoPc → Bool
  | resumeCancelled | resumeMutex | resumeMark | onResumeShutdown | onResumeAbandoned
  | onResumeCancelled | holding | throwing => true
  | _ => false

/-- Steps left to the coroutine, with those of the calls that it will make. -/
def weight : CoPc → ℕ
  | readyAbandoned => 38
  | readyCancelled => 37
  | readyMutex => 36
  | tryLoad => 35
  | tryCas => 34
  | suspendCancelled => 33
  | suspendStatus _ => 32
  | suspendMutex => 31
  | suspendMark | callLock => 30
  | waiting => 22
  | resumeCancelled => 19
  | resumeMutex => 18
  | resumeMark => 17
  | onResumeShutdown => 16
  | onResumeAbandoned => 15
  | onResumeCancelled => 14
  | holding | throwing => 13
  | outside | unlocking => 0

end CoPc

namespace Call

/-- Steps left to the call as long as the owner word stays null, or stays not null, not
reckoning what it still does with the coroutines that it schedules. -/
def distance (isFree : Bool) : Call Co → ℕ
  | idle => 0
  | lockSchedule _ _ => 2
  | lockCas _ _ => if isFree = true then 3 else 4
  | lockDequeue _ => if isFree = true then 4 else 5
  | lockReload _ => if isFree = true then 5 else 2
  | lockEnqueue _ _ => if isFree = true then 6 else 3
  | lockLoad _ _ => if isFree = true then 7 else 4
  | removeSchedule _ => 1
  | removeDequeueNext _ _ => 8
  | removeCheckOwner _ _ => 9
  | removeDequeue _ left => 10 + 2 * left
  | removeEnqueue _ _ left => 11 + 2 * left
  | removeCount _ => 11 + 2 * 2 ^ 64
  | unlockMarkStranger _ => 1
  | unlockStranger _ => 2
  | handSchedule _ _ => 2
  | handOff _ _ => 3
  | unlockDequeueAgain _ => 8
  | unlockClear _ => 9
  | unlockDequeue _ => 10
  | unlockMark _ => 8
  | unlockCancelled _ => 11
  | unlockLoad _ => 12
  | unlockRelease _ => 4
  | drainSchedule (.owned _) _ => 5
  | drainMark (.owned _) _ => 6
  | drainDequeue (.owned _) => 7
  | drainSchedule _ _ => 1
  | drainMark _ _ => 2
  | drainDequeue _ => 3
  | cancelMark => 4

theorem distance_le (p : Call Co) (isFree isFree' : Bool) :
    p.distance isFree ≤ p.distance isFree' + 3 := by
  cases p with
  | lockCas | lockDequeue | lockReload | lockEnqueue | lockLoad =>
      simp only [distance]
      split_ifs <;> omega
  | drainDequeue drain | drainMark drain | drainSchedule drain =>
      cases drain <;> exact Nat.le_add_right _ 3
  | _ => exact Nat.le_add_right _ 3

end Call

def State.isFree (s : State Thread Co) : Bool := s.owner.isNone

variable [DecidableEq Co]

/-- How often the coroutine may still change the owner word. -/
def State.turns (s : State Thread Co) (c : Co) : ℕ :=
  if s.owner = some c then 1 else if (s.co c).mayAcquire = true then 2 else 0

variable [DecidableEq Thread] {s s' : State Thread Co} {t : Thread} {c : Co} {p q : Call Co}

section Calls

/-- Less is left of the call than before, or it has scheduled a waiter and goes round the loop
that empties the wait list. -/
def Nearer (s s' : State Thread Co) (t : Thread) (q : Call Co) : Prop :=
  (s'.call t).distance s'.isFree < q.distance s.isFree ∨
    (s'.call t).distance s'.isFree ≤ q.distance s.isFree + 2 ∧
      ∃ c, s.co c = .waiting ∧ s'.co c = .resumeCancelled

omit [DecidableEq Co] in
theorem Nearer.of_call (hcall : s'.call = Function.update s.call t p)
    (h : p.distance s'.isFree < q.distance s.isFree) : Nearer s s' t q := by
  refine .inl ?_
  rw [hcall, Function.update_self]
  exact h

omit [DecidableEq Co] in
theorem Nearer.go (hcall : s'.call = Function.update s.call t p) (howner : s'.owner = s.owner)
    (h : ∀ isFree, p.distance isFree < q.distance isFree) : Nearer s s' t q := by
  refine .of_call hcall ?_
  unfold State.isFree
  rw [howner]
  exact h _

theorem returnLock_nearer {s₀ : State Thread Co} {caller : Caller Co} (hcall : s₀.call = s.call)
    (hq : 1 < q.distance s.isFree) : Nearer s (s₀.returnLock t caller) t q := by
  have hgo : ∀ p, (s₀.goCall t p).call = Function.update s.call t p := fun p => by
    rw [← hcall]
    rfl
  cases caller with
  | awaiter => exact .of_call (hgo _) (Nat.zero_lt_of_lt hq)
  | unlock c => exact .of_call (hgo _) (Nat.zero_lt_of_lt hq)
  | remove c removed =>
      cases removed with
      | false => exact .of_call (hgo _) (Nat.zero_lt_of_lt hq)
      | true => exact .of_call (hgo _) hq

omit [DecidableEq Co] [DecidableEq Thread] in
theorem isFree_of_eq (h : s.owner = none) : s.isFree = true := by
  unfold State.isFree
  rw [h]
  rfl

omit [DecidableEq Co] [DecidableEq Thread] in
theorem isFree_of_ne (h : s.owner ≠ none) : s.isFree = false := by
  unfold State.isFree
  rw [Option.isNone_eq_false_iff]
  exact Option.isSome_iff_ne_none.mpr h

theorem lock_nearer {next : Co} {caller : Caller Co}
    (hq : q = .lockLoad next caller ∨ q = .lockCas next caller)
    (h : callStep s t false 0 q = some s') : Nearer s s' t q := by
  by_cases ho : s.owner = none
  · rcases hq with rfl | rfl <;> cases h
    · rw [if_pos ho]
      refine .of_call rfl ?_
      change Call.distance s.isFree _ < _
      rw [isFree_of_eq ho]
      exact Nat.le_of_ble_eq_true rfl
    · rw [if_pos ho, if_neg Bool.false_ne_true]
      refine .of_call rfl ?_
      rw [isFree_of_eq ho]
      exact Nat.le_of_ble_eq_true rfl
  · rcases hq with rfl | rfl <;> cases h <;> rw [if_neg ho] <;> refine .of_call rfl ?_ <;>
      change Call.distance s.isFree _ < _ <;> rw [isFree_of_ne ho] <;>
      exact Nat.le_of_ble_eq_true rfl

theorem drain_nearer {drain : Drain Co} (h : callStep s t false 0 (.drainDequeue drain) = some s') :
    Nearer s s' t (.drainDequeue drain) := by
  cases h
  cases hlist : s.waitList with
  | cons next rest =>
      cases drain <;> exact .go rfl rfl fun _ => Nat.le_of_ble_eq_true rfl
  | nil =>
      cases drain <;> exact .go rfl rfl fun _ => Nat.le_of_ble_eq_true rfl

theorem remove_nearer {left : ℕ} (h : callStep s t false 0 (.removeDequeue c left) = some s') :
    Nearer s s' t (.removeDequeue c left) := by
  cases h
  cases left with
  | zero => exact .go rfl rfl fun _ => Nat.le_of_ble_eq_true rfl
  | succ left =>
      cases hlist : s.waitList with
      | nil =>
          refine .go rfl rfl fun _ => ?_
          simp only [Call.distance]
          omega
      | cons node rest =>
          by_cases hc : node = c
          · simp only [if_pos hc]
            refine .go rfl rfl fun _ => ?_
            simp only [Call.distance]
            omega
          · simp only [if_neg hc]
            refine .go rfl rfl fun _ => ?_
            simp only [Call.distance]
            omega

theorem callStep_nearer [Fintype Thread] {bound : ℕ} (hi : Inv s) (hbound : bound < 2 ^ 64)
    (h : callStep s t false bound (s.call t) = some s') : Nearer s s' t (s.call t) := by
  cases hp : s.call t with rw [hp] at h
  | idle => cases h
  | lockLoad next caller => exact lock_nearer (.inl rfl) h
  | lockCas next caller => exact lock_nearer (.inr rfl) h
  | lockEnqueue next caller =>
      cases h
      exact .go rfl rfl fun isFree => by cases isFree <;> exact Nat.le_of_ble_eq_true rfl
  | lockReload caller =>
      cases h
      by_cases ho : s.owner = none
      · rw [if_pos ho]
        refine .of_call rfl ?_
        change Call.distance s.isFree _ < _
        rw [isFree_of_eq ho]
        exact Nat.le_of_ble_eq_true rfl
      · rw [if_neg ho]
        apply returnLock_nearer rfl
        rw [isFree_of_ne ho]
        exact Nat.le_of_ble_eq_true rfl
  | lockDequeue caller =>
      cases h
      cases hlist : s.waitList with
      | cons next rest =>
          exact .go rfl rfl fun isFree => by cases isFree <;> exact Nat.le_of_ble_eq_true rfl
      | nil =>
          apply returnLock_nearer rfl
          cases s.isFree <;> exact Nat.le_of_ble_eq_true rfl
  | lockSchedule next caller =>
      cases h
      exact returnLock_nearer rfl (Nat.le_of_ble_eq_true rfl)
  | unlockLoad | unlockStranger | unlockCancelled =>
      cases h
      split_ifs <;> exact .go rfl rfl fun _ => Nat.le_of_ble_eq_true rfl
  | unlockDequeue | unlockDequeueAgain =>
      cases h
      cases hlist : s.waitList with
      | cons next rest =>
          exact .go rfl rfl fun isFree => by cases isFree <;> exact Nat.le_of_ble_eq_true rfl
      | nil => exact .go rfl rfl fun _ => Nat.le_of_ble_eq_true rfl
  | unlockMarkStranger | unlockMark | handSchedule | cancelMark | removeSchedule =>
      cases h
      exact .go rfl rfl fun _ => Nat.le_of_ble_eq_true rfl
  | drainMark drain next =>
      cases h
      cases drain <;> exact .go rfl rfl fun _ => Nat.le_of_ble_eq_true rfl
  | unlockRelease | unlockClear | handOff =>
      cases h
      exact .of_call rfl (Nat.le_of_ble_eq_true rfl)
  | drainDequeue drain => exact drain_nearer h
  | drainSchedule drain next =>
      have hnext : s.co next = .waiting := hi.waiting_of hp (List.mem_singleton_self next)
      cases h
      refine .inr ⟨?_, next, hnext, ?_⟩
      · change (Function.update s.call t (.drainDequeue drain) t).distance s.isFree ≤ _
        rw [Function.update_self]
        cases drain <;> exact le_rfl
      · change (if s.co next = .waiting then Function.update s.co next .resumeCancelled
          else s.co) next = _
        rw [if_pos hnext, Function.update_self]
  | removeCount c =>
      cases h
      refine .go rfl rfl fun _ => ?_
      simp only [Call.distance]
      omega
  | removeDequeue c left => exact remove_nearer h
  | removeEnqueue c node left =>
      cases h
      refine .go rfl rfl fun _ => ?_
      simp only [Call.distance]
      omega
  | removeCheckOwner c removed =>
      cases h
      cases removed <;> split_ifs <;> exact .go rfl rfl fun _ => Nat.le_of_ble_eq_true rfl
  | removeDequeueNext c removed =>
      cases h
      cases hlist : s.waitList with
      | cons next rest =>
          exact .go rfl rfl fun isFree => by cases isFree <;> exact Nat.le_of_ble_eq_true rfl
      | nil =>
          cases removed <;> exact .go rfl rfl fun _ => Nat.le_of_ble_eq_true rfl

end Calls

section Coroutines

/-- What a step of a coroutine in `AsyncMutexAwaiter` does. -/
structure Advances (s s' : State Thread Co) (c : Co) (spurious : Bool) (q : CoPc) : Prop where
  call : s'.call = s.call
  co : s'.co = Function.update s.co c q
  weight : spurious = false → q.weight < (s.co c).weight
  mayAcquire : q.mayAcquire = true → (s.co c).mayAcquire = true
  comes : (s.co c).comesToUnlock = true → q.comesToUnlock = true
  owner : s'.owner = s.owner ∨ s.owner = none ∧ s'.owner = some c ∧
    (s.co c).mayAcquire = true ∧ q.comesToUnlock = true

omit [DecidableEq Thread] in
theorem Advances.go {spurious : Bool} {q r : CoPc} (hr : s.co c = r) (hcall : s'.call = s.call)
    (hco : s'.co = Function.update s.co c q) (howner : s'.owner = s.owner)
    (hweight : q.weight < r.weight) (hacquire : q.mayAcquire = true → r.mayAcquire = true)
    (hcomes : r.comesToUnlock = true → q.comesToUnlock = true) :
    Advances s s' c spurious q := by
  subst hr
  exact ⟨hcall, hco, fun _ => hweight, hacquire, hcomes, .inl howner⟩

omit [DecidableEq Thread] in
theorem advances_of_coStep {mayChain spurious shutdown : Bool}
    (h : coStep s c mayChain spurious shutdown (s.co c) = some s') :
    ∃ q, Advances s s' c spurious q := by
  cases hp : s.co c with rw [hp] at h
  | outside | callLock | waiting | holding | throwing | unlocking => cases h
  | suspendStatus isCancelled =>
      cases h
      split_ifs
      · exact ⟨_, .go hp rfl rfl rfl (Nat.le_of_ble_eq_true rfl) (fun _ => rfl)
          fun hf => absurd hf Bool.false_ne_true⟩
      · exact ⟨_, .go hp rfl rfl rfl (Nat.le_of_ble_eq_true rfl) (fun _ => rfl)
          fun hf => absurd hf Bool.false_ne_true⟩
  | suspendCancelled =>
      cases h
      exact ⟨_, .go hp rfl rfl rfl (Nat.le_of_ble_eq_true rfl) (fun _ => rfl)
        fun hf => absurd hf Bool.false_ne_true⟩
  | suspendMark | resumeMark =>
      cases h
      exact ⟨_, .go hp rfl rfl rfl (by decide) (by decide) (by decide)⟩
  | tryCas =>
      by_cases ho : s.owner = none
      · have h := (if_pos ho).symm.trans h
        cases spurious with
        | true =>
            cases h
            refine ⟨.tryCas, rfl, rfl, fun hf => absurd hf.symm Bool.false_ne_true, ?_, ?_,
              .inl rfl⟩
            · rw [hp]
              exact id
            · rw [hp]
              exact id
        | false =>
            cases h
            exact ⟨.resumeCancelled, rfl, rfl, fun _ => by rw [hp]; decide,
              fun _ => by rw [hp]; rfl, fun _ => rfl, .inr ⟨ho, rfl, by rw [hp]; rfl, rfl⟩⟩
      · cases (if_neg ho).symm.trans h
        exact ⟨_, .go hp rfl rfl rfl (by decide) (by decide) (by decide)⟩
  | _ =>
      cases h
      split_ifs <;> exact ⟨_, .go hp rfl rfl rfl (by decide) (by decide) (by decide)⟩

end Coroutines

section Turns

omit [DecidableEq Thread] in
/-- Another owner, or the same coroutine at another place. -/
theorem turns_le_of_owner_eq (howner : s'.owner = s.owner)
    (hco : (s'.co c).mayAcquire = true → (s.co c).mayAcquire = true) :
    s'.turns c ≤ s.turns c := by
  unfold State.turns
  rw [howner]
  split_ifs with h₁ h₂ h₃
  · exact le_rfl
  · exact le_rfl
  · exact absurd (hco h₂) h₃
  · exact Nat.zero_le 2
  · exact le_rfl

omit [DecidableEq Thread] [DecidableEq Co] in
theorem CoMoves.mayAcquire (h : CoMoves s s' c) (ha : (s'.co c).mayAcquire = true) :
    (s.co c).mayAcquire = true := by
  cases h with
  | same hco _ => rwa [hco] at ha
  | scheduled _ hco _ _ | unlocked _ hco _ =>
      rw [hco] at ha
      cases ha

omit [DecidableEq Thread] [DecidableEq Co] in
theorem CoMoves.weight (h : CoMoves s s' c) : (s'.co c).weight ≤ (s.co c).weight := by
  cases h with
  | same hco _ => rw [hco]
  | scheduled hw hco _ _ =>
      rw [hw, hco]
      decide
  | unlocked hu hco _ =>
      rw [hu, hco]
      exact le_rfl

omit [DecidableEq Thread] in
theorem turns_le_of_not_owner (h : s.owner ≠ some c) (h' : s'.owner ≠ some c)
    (hco : (s'.co c).mayAcquire = true → (s.co c).mayAcquire = true) :
    s'.turns c ≤ s.turns c := by
  unfold State.turns
  rw [if_neg h, if_neg h']
  split_ifs with h₁ h₂
  · exact le_rfl
  · exact absurd (hco h₁) h₂
  · exact Nat.zero_le 2
  · exact le_rfl

omit [DecidableEq Thread] in
theorem mayAcquire_of_update {r : CoPc} {d : Co} (hco : s'.co = Function.update s.co c r)
    (hr : r.mayAcquire = true → (s.co c).mayAcquire = true)
    (h : (s'.co d).mayAcquire = true) : (s.co d).mayAcquire = true := by
  by_cases hd : d = c
  · subst hd
    rw [hco, Function.update_self] at h
    exact hr h
  · rwa [hco, Function.update_of_ne hd] at h

omit [DecidableEq Thread] in
theorem Advances.turns {spurious : Bool} {r : CoPc} (h : Advances s s' c spurious r) :
    (∀ d, s'.turns d ≤ s.turns d) ∧ (s'.isFree ≠ s.isFree → ∃ d, s'.turns d < s.turns d) := by
  have hacquire : ∀ d, (s'.co d).mayAcquire = true → (s.co d).mayAcquire = true := fun d =>
    mayAcquire_of_update h.co h.mayAcquire
  rcases h.owner with he | ⟨hn, he, hc, _⟩
  · exact ⟨fun d => turns_le_of_owner_eq he (hacquire d),
      fun hne => absurd (by unfold State.isFree; rw [he]) hne⟩
  · have hnot : ∀ d, s.owner ≠ some d := fun d => by rw [hn]; nofun
    have hlt : s'.turns c < s.turns c := by
      unfold State.turns
      rw [if_pos he, if_neg (hnot c), if_pos hc]
      exact Nat.one_lt_two
    refine ⟨fun d => ?_, fun _ => ⟨c, hlt⟩⟩
    by_cases hd : d = c
    · exact hd ▸ hlt.le
    · refine turns_le_of_not_owner (hnot d) ?_ (hacquire d)
      rw [he]
      exact fun heq => hd (Option.some.inj heq).symm

variable [Fintype Thread]

omit [DecidableEq Thread] in
theorem Inv.turns_of_held (hi : Inv s) (hc : c ∈ (s.call t).held) (ho : s.owner ≠ some c) :
    s.turns c = 2 := by
  unfold State.turns
  rw [if_neg ho, hi.waiting_of_held hc]
  rfl

omit [DecidableEq Thread] in
/-- An owner that unlocks has had its turn. -/
theorem Inv.turns_of_left (hi : Inv s) (hc : c ∈ (s.call t).unlocks) (ho : s.owner = some c)
    (hm : CoMoves s s' c) (ho' : s'.owner ≠ some c) : s'.turns c < s.turns c := by
  have hco := hi.unlocking_of_mem hc
  have hnot : (s'.co c).mayAcquire ≠ true := fun ha => by
    have := hm.mayAcquire ha
    rw [hco] at this
    cases this
  unfold State.turns
  rw [if_pos ho, if_neg ho', if_neg hnot]
  exact Nat.one_pos

/-- A call leaves nobody more turns, and takes one where it makes the owner word null or
not null. -/
theorem CallMoves.turns (hi : Inv s) (hm : CallMoves s s' t p) :
    (∀ c, s'.turns c ≤ s.turns c) ∧ (s'.isFree ≠ s.isFree → ∃ c, s'.turns c < s.turns c) := by
  cases hm.owner with
  | same he =>
      exact ⟨fun c => turns_le_of_owner_eq he (hm.co c).mayAcquire,
        fun hne => absurd (by unfold State.isFree; rw [he]) hne⟩
  | @take d hn hd he =>
      have hnot : ∀ c, s.owner ≠ some c := fun c => by rw [hn]; nofun
      have hlt : s'.turns d < s.turns d := by
        rw [hi.turns_of_held hd (hnot d)]
        unfold State.turns
        rw [if_pos he]
        exact Nat.one_lt_two
      refine ⟨fun c => ?_, fun _ => ⟨d, hlt⟩⟩
      by_cases hc : c = d
      · exact hc ▸ hlt.le
      · refine turns_le_of_not_owner (hnot c) ?_ (hm.co c).mayAcquire
        rw [he]
        exact fun heq => hc (Option.some.inj heq).symm
  | @leave u hu hmem he =>
      have howner := hi.owns t u hu
      have hlt : s'.turns u < s.turns u :=
        hi.turns_of_left hmem howner (hm.co u) (by rw [he]; nofun)
      refine ⟨fun c => ?_, fun _ => ⟨u, hlt⟩⟩
      by_cases hc : c = u
      · exact hc ▸ hlt.le
      · refine turns_le_of_not_owner ?_ (by rw [he]; nofun) (hm.co c).mayAcquire
        rw [howner]
        exact fun heq => hc (Option.some.inj heq).symm
  | @pass u d hu hmem hd he =>
      have howner := hi.owns t u hu
      have hdu : d ≠ u := by
        rintro rfl
        have := (hi.waiting_of_held hd).symm.trans (hi.unlocking_of_mem hmem)
        cases this
      refine ⟨fun c => ?_, fun hne => absurd ?_ hne⟩
      · by_cases hcu : c = u
        · rw [hcu]
          refine (hi.turns_of_left hmem howner (hm.co u) ?_).le
          rw [he]
          exact fun heq => hdu (Option.some.inj heq)
        have hne : s.owner ≠ some c := by
          rw [howner]
          exact fun heq => hcu (Option.some.inj heq).symm
        by_cases hcd : c = d
        · rw [hcd] at hne ⊢
          rw [hi.turns_of_held hd hne]
          unfold State.turns
          rw [if_pos he]
          exact Nat.le_succ 1
        · refine turns_le_of_not_owner hne ?_ (hm.co c).mayAcquire
          rw [he]
          exact fun heq => hcd (Option.some.inj heq).symm
      · unfold State.isFree
        rw [he, howner]
        rfl

end Turns

section Rank

variable [Fintype Thread] [Fintype Co]

/-- What the calls and the coroutines have to do as long as the owner word stays null, or
stays not null. -/
def State.work (s : State Thread Co) : ℕ :=
  ∑ t, (s.call t).distance s.isFree + ∑ c, (s.co c).weight

/-- A change between null and not null puts every thread back by at most three steps. -/
def State.rank (s : State Thread Co) : ℕ :=
  s.work + (3 * Fintype.card Thread + 4) * ∑ c, s.turns c

omit [DecidableEq Thread] in
theorem rank_lt (hturns : ∀ c, s'.turns c ≤ s.turns c)
    (hflip : s'.isFree ≠ s.isFree → ∃ c, s'.turns c < s.turns c)
    (hwork : s'.isFree = s.isFree → s'.work < s.work)
    (hback : s'.work < s.work + (3 * Fintype.card Thread + 4)) : s'.rank < s.rank := by
  unfold State.rank
  by_cases he : s'.isFree = s.isFree
  · have hmul := Nat.mul_le_mul_left (3 * Fintype.card Thread + 4)
      (Finset.sum_le_sum fun c (_ : c ∈ Finset.univ) => hturns c)
    have := hwork he
    omega
  · obtain ⟨c, hc⟩ := hflip he
    have hlt : ∑ c, s'.turns c < ∑ c, s.turns c :=
      Finset.sum_lt_sum (fun c _ => hturns c) ⟨c, Finset.mem_univ c, hc⟩
    have hmul := Nat.mul_le_mul_left (3 * Fintype.card Thread + 4) hlt
    rw [Nat.mul_succ] at hmul
    omega

omit [DecidableEq Thread] [DecidableEq Co] [Fintype Co] in
theorem sum_distance_le (call : Thread → Call Co) (isFree isFree' : Bool) :
    ∑ t, (call t).distance isFree ≤ ∑ t, (call t).distance isFree' + 3 * Fintype.card Thread := by
  have hsum : ∑ t, (call t).distance isFree ≤ ∑ t, ((call t).distance isFree' + 3) :=
    Finset.sum_le_sum fun t _ => (call t).distance_le ..
  rw [Finset.sum_add_distrib, Finset.sum_const_nat fun _ _ => rfl, Finset.card_univ,
    Nat.mul_comm] at hsum
  exact hsum

theorem CallMoves.rank_lt (hi : Inv s) (hm : CallMoves s s' t p)
    (hn : Nearer s s' t (s.call t)) : s'.rank < s.rank := by
  obtain ⟨hturns, hflip⟩ := hm.turns hi
  have hself : s'.call t = p := by rw [hm.call, Function.update_self]
  have hsum := sum_update_tally s.call (Call.distance s'.isFree) t p
  rw [← hm.call] at hsum
  have hweights : ∑ c, (s'.co c).weight ≤ ∑ c, (s.co c).weight :=
    Finset.sum_le_sum fun c _ => (hm.co c).weight
  have hlt : p.distance s'.isFree + ∑ c, (s'.co c).weight <
      (s.call t).distance s.isFree + ∑ c, (s.co c).weight := by
    unfold Nearer at hn
    rw [hself] at hn
    rcases hn with hn | ⟨hn, c, hw, hc⟩
    · omega
    · have hupdate : ∑ d, (s'.co d).weight + 3 ≤ ∑ d, (s.co d).weight := by
        have hle := Finset.sum_le_sum fun d (_ : d ∈ Finset.univ.erase c) => (hm.co d).weight
        have h₁ := Finset.sum_erase_add Finset.univ (fun d => (s.co d).weight) (Finset.mem_univ c)
        have h₂ := Finset.sum_erase_add Finset.univ (fun d => (s'.co d).weight) (Finset.mem_univ c)
        have h₃ : (s.co c).weight = 22 := by rw [hw]; rfl
        have h₄ : (s'.co c).weight = 19 := by rw [hc]; rfl
        omega
      omega
  refine AsyncMutex.rank_lt hturns hflip (fun he => ?_) ?_
  · unfold State.work
    rw [he] at hsum hlt ⊢
    omega
  · have hback := sum_distance_le s.call s'.isFree s.isFree
    have hown := (s.call t).distance_le s.isFree s'.isFree
    unfold State.work
    omega

omit [DecidableEq Thread] in
theorem Advances.rank_lt {r : CoPc} (h : Advances s s' c false r) : s'.rank < s.rank := by
  obtain ⟨hturns, hflip⟩ := h.turns
  have hweights := sum_update_tally s.co CoPc.weight c r
  have hlt := h.weight rfl
  rw [← h.co] at hweights
  refine AsyncMutex.rank_lt hturns hflip (fun he => ?_) ?_
  · unfold State.work
    rw [he, h.call]
    omega
  · have hback := sum_distance_le s.call s'.isFree s.isFree
    unfold State.work
    rw [h.call]
    omega

theorem rank_lt_of_enter {r : CoPc} (hidle : s.call t = .idle)
    (hcall : s'.call = Function.update s.call t p) (hco : s'.co = Function.update s.co c r)
    (howner : s'.owner = s.owner) (hr : r.mayAcquire = true → (s.co c).mayAcquire = true)
    (hlt : p.distance s.isFree + r.weight < (s.co c).weight) : s'.rank < s.rank := by
  have hfree : s'.isFree = s.isFree := by unfold State.isFree; rw [howner]
  have hwork : s'.work < s.work := by
    have hcalls := sum_update_tally s.call (Call.distance s.isFree) t p
    have hweights := sum_update_tally s.co CoPc.weight c r
    rw [← hcall, hidle, show (Call.idle : Call Co).distance s.isFree = 0 from rfl] at hcalls
    rw [← hco] at hweights
    unfold State.work
    rw [hfree]
    omega
  exact AsyncMutex.rank_lt (fun d => turns_le_of_owner_eq howner (mayAcquire_of_update hco hr))
    (fun hne => absurd hfree hne) (fun _ => hwork) (Nat.lt_add_right _ hwork)

theorem rank_lt_of_step {a : Action Thread Co} (hi : Inv s) (ha : a.goesOn)
    (h : step s a = some s') : s'.rank < s.rank := by
  cases a with
  | await | setCancelled | setAbandoned | cancel | remove => exact ha.elim
  | co c mayChain spurious shutdown =>
      obtain rfl : spurious = false := ha
      obtain ⟨r, hr⟩ := advances_of_coStep h
      exact hr.rank_lt
  | lock c t =>
      obtain ⟨⟨hc, ht⟩, he⟩ := Option.ite_none_right_eq_some.mp h
      cases he
      refine rank_lt_of_enter (r := .waiting) ht rfl rfl rfl (fun _ => by rw [hc]; rfl) ?_
      rw [hc]
      cases s.isFree <;> exact Nat.le_of_ble_eq_true rfl
  | unlock c t =>
      obtain ⟨⟨hc, ht⟩, he⟩ := Option.ite_none_right_eq_some.mp h
      cases he
      refine rank_lt_of_enter (r := .unlocking) ht rfl rfl rfl
        (fun hf => absurd hf Bool.false_ne_true) ?_
      rcases hc with hc | hc <;> rw [hc] <;> exact Nat.le_of_ble_eq_true rfl
  | call t spurious bound =>
      obtain ⟨rfl, hbound⟩ := ha
      obtain ⟨p, hm⟩ := hi.callMoves h
      exact hm.rank_lt hi (callStep_nearer hi hbound h)

end Rank

end LevelzAsync.AsyncMutex
