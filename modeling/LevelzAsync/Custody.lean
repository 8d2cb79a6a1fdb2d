import Mathlib.Data.List.Nodup

/-!
# Custody of items between queues and holders

Items wait in a family of queues. A holder takes an item off the front of a queue
and then puts it back or lets it go, one item at a time. A ledger counts how
often each item came in and how often it was let go: the two numbers differ by
one exactly while the item is in custody, and then it is in one place. The rules
state the effect of an operation point by point, so that they apply to whatever
stores the queues and the items in hand.
-/

variable {κ η ι : Type*}

def StoredAt (queue : κ → List ι) (holds : η → Option ι) (c : ι) : κ ⊕ η → Prop
  | .inl k => c ∈ queue k
  | .inr h => holds h = some c

def InCustody (queue : κ → List ι) (holds : η → Option ι) (c : ι) : Prop :=
  ∃ p, StoredAt queue holds c p

structure Custody (queue : κ → List ι) (holds : η → Option ι) : Prop where
  nodup : ∀ k, (queue k).Nodup
  unique : ∀ c p q, StoredAt queue holds c p → StoredAt queue holds c q → p = q

structure Ledger (queue : κ → List ι) (holds : η → Option ι) (entered left : ι → ℕ) : Prop
    extends Custody queue holds where
  inside : ∀ c, InCustody queue holds c → entered c = left c + 1
  outside : ∀ c, ¬ InCustody queue holds c → entered c = left c

variable {queue queue' : κ → List ι} {holds holds' : η → Option ι}
  {entered entered' left left' : ι → ℕ} {k : κ} {h : η} {c : ι} {rest : List ι}

theorem not_inCustody_of_empty (hq : ∀ k, queue k = []) (hh : ∀ h, holds h = none) :
    ¬ InCustody queue holds c := by
  rintro ⟨p, hp⟩
  cases p with
  | inl k => simp [StoredAt, hq k] at hp
  | inr h => simp [StoredAt, hh h] at hp

theorem Ledger.of_empty (hq : ∀ k, queue k = []) (hh : ∀ h, holds h = none)
    (he : ∀ c, entered c = left c) : Ledger queue holds entered left where
  nodup k := by simp [hq k]
  unique c p _ hp _ := absurd ⟨p, hp⟩ (not_inCustody_of_empty hq hh)
  inside c hc := absurd hc (not_inCustody_of_empty hq hh)
  outside c _ := he c

theorem Ledger.congr (hl : Ledger queue holds entered left) (hq : ∀ k, queue' k = queue k)
    (hh : ∀ h, holds' h = holds h) (he : ∀ c, entered' c = entered c)
    (hf : ∀ c, left' c = left c) : Ledger queue' holds' entered' left' := by
  obtain rfl := funext hq
  obtain rfl := funext hh
  obtain rfl := funext he
  obtain rfl := funext hf
  exact hl

namespace Ledger

theorem left_le (hl : Ledger queue holds entered left) (c : ι) : left c ≤ entered c := by
  by_cases hc : InCustody queue holds c
  · have := hl.inside c hc
    omega
  · have := hl.outside c hc
    omega

theorem le_left_add_one (hl : Ledger queue holds entered left) (c : ι) :
    entered c ≤ left c + 1 := by
  by_cases hc : InCustody queue holds c
  · have := hl.inside c hc
    omega
  · have := hl.outside c hc
    omega

theorem not_inCustody (hl : Ledger queue holds entered left) (he : entered c = left c) :
    ¬ InCustody queue holds c := by
  intro hc
  have := hl.inside c hc
  omega

/-- An item that came in and was not let go is in exactly one place. -/
theorem existsUnique_place (hl : Ledger queue holds entered left) (he : left c < entered c) :
    ∃! p, StoredAt queue holds c p := by
  have hc : InCustody queue holds c := by
    by_contra hc
    have := hl.outside c hc
    omega
  obtain ⟨p, hp⟩ := hc
  exact ⟨p, hp, fun q hq => hl.unique c q p hq hp⟩

/-- The place of one item changes, that of the others does not. -/
theorem move (hl : Ledger queue holds entered left) (c : ι) (place : Option (κ ⊕ η))
    (hnodup : ∀ k, (queue' k).Nodup)
    (hother : ∀ d, d ≠ c → ∀ p, StoredAt queue' holds' d p ↔ StoredAt queue holds d p)
    (hself : ∀ p, StoredAt queue' holds' c p ↔ place = some p)
    (hinside : place.isSome = true → entered' c = left' c + 1)
    (houtside : place = none → entered' c = left' c)
    (he : ∀ d, d ≠ c → entered' d = entered d) (hf : ∀ d, d ≠ c → left' d = left d) :
    Ledger queue' holds' entered' left' := by
  have hin : ∀ d, d ≠ c → (InCustody queue' holds' d ↔ InCustody queue holds d) :=
    fun d hd => exists_congr (hother d hd)
  refine ⟨⟨hnodup, fun d p q hp hq => ?_⟩, fun d hd => ?_, fun d hd => ?_⟩
  · by_cases hdc : d = c
    · subst hdc
      exact Option.some.inj (((hself p).mp hp).symm.trans ((hself q).mp hq))
    · exact hl.unique d p q ((hother d hdc p).mp hp) ((hother d hdc q).mp hq)
  · by_cases hdc : d = c
    · subst hdc
      obtain ⟨p, hp⟩ := hd
      exact hinside (by rw [(hself p).mp hp]; rfl)
    · rw [he d hdc, hf d hdc]
      exact hl.inside d ((hin d hdc).mp hd)
  · by_cases hdc : d = c
    · subst hdc
      apply houtside
      by_contra hne
      obtain ⟨p, hp⟩ := Option.ne_none_iff_exists'.mp hne
      exact hd ⟨p, (hself p).mpr hp⟩
    · rw [he d hdc, hf d hdc]
      exact hl.outside d (mt (hin d hdc).mpr hd)

theorem nodup_push (hl : Ledger queue holds entered left) (hc : c ∉ queue k)
    (hk : queue' k = queue k ++ [c]) (hq : ∀ j, j ≠ k → queue' j = queue j) (j : κ) :
    (queue' j).Nodup := by
  by_cases hj : j = k
  · subst hj
    rw [hk]
    exact (hl.nodup j).append (List.nodup_singleton c) (by simpa using hc)
  · exact hq j hj ▸ hl.nodup j

end Ledger

theorem mem_push_iff (hk : queue' k = queue k ++ [c]) (hq : ∀ j, j ≠ k → queue' j = queue j)
    {d : ι} (hd : d ≠ c) (j : κ) : d ∈ queue' j ↔ d ∈ queue j := by
  by_cases hj : j = k
  · subst hj
    simp [hk, hd]
  · rw [hq j hj]

/-- A hand that holds nothing but `c` before and after. -/
theorem holds_iff_of_ne (hh : ∀ d, holds h = some d → d = c) (hh' : ∀ d, holds' h = some d → d = c)
    (hg : ∀ g, g ≠ h → holds' g = holds g) {d : ι} (hd : d ≠ c) (g : η) :
    holds' g = some d ↔ holds g = some d := by
  by_cases hgh : g = h
  · subst hgh
    exact ⟨fun hs => absurd (hh' d hs) hd, fun hs => absurd (hh d hs) hd⟩
  · rw [hg g hgh]

theorem storedAt_iff (hq : ∀ j, c ∈ queue' j ↔ c ∈ queue j)
    (hh : ∀ g, holds' g = some c ↔ holds g = some c) (p : κ ⊕ η) :
    StoredAt queue' holds' c p ↔ StoredAt queue holds c p := by
  cases p with
  | inl j => exact hq j
  | inr g => exact hh g

namespace Ledger

theorem enter (hl : Ledger queue holds entered left) (hout : ¬ InCustody queue holds c)
    (hk : queue' k = queue k ++ [c]) (hq : ∀ j, j ≠ k → queue' j = queue j)
    (hh : ∀ g, holds' g = holds g) (hc : entered' c = entered c + 1)
    (he : ∀ d, d ≠ c → entered' d = entered d) (hf : ∀ d, left' d = left d) :
    Ledger queue' holds' entered' left' := by
  have hnot : ∀ p, ¬ StoredAt queue holds c p := fun p hp => hout ⟨p, hp⟩
  refine hl.move c (some (.inl k)) (hl.nodup_push (hnot (.inl k)) hk hq) (fun d hd => ?_)
    (fun p => ?_) (fun _ => ?_) nofun he (fun d _ => hf d)
  · exact storedAt_iff (mem_push_iff hk hq hd) fun g => by rw [hh g]
  · cases p with
    | inl j =>
        by_cases hj : j = k
        · subst hj
          simp [StoredAt, hk]
        · have : c ∉ queue j := hnot (.inl j)
          simp [StoredAt, hq j hj, this, Ne.symm hj]
    | inr g =>
        have : holds g ≠ some c := hnot (.inr g)
        simp [StoredAt, hh g, this]
  · have := hl.outside c hout
    have := hf c
    omega

theorem take (hl : Ledger queue holds entered left) (hk : queue k = c :: rest)
    (hk' : queue' k = rest) (hq : ∀ j, j ≠ k → queue' j = queue j) (hh : holds h = none)
    (hh' : holds' h = some c) (hg : ∀ g, g ≠ h → holds' g = holds g)
    (he : ∀ d, entered' d = entered d) (hf : ∀ d, left' d = left d) :
    Ledger queue' holds' entered' left' := by
  have hnodup := hl.nodup k
  rw [hk, List.nodup_cons] at hnodup
  have hat : StoredAt queue holds c (.inl k) := by simp [StoredAt, hk]
  have honly : ∀ p, StoredAt queue holds c p → p = .inl k := fun p hp => hl.unique c p _ hp hat
  refine hl.move c (some (.inr h)) (fun j => ?_) (fun d hd => ?_) (fun p => ?_) (fun _ => ?_)
    nofun (fun d _ => he d) (fun d _ => hf d)
  · by_cases hj : j = k
    · exact hj ▸ hk' ▸ hnodup.2
    · exact hq j hj ▸ hl.nodup j
  · refine storedAt_iff (fun j => ?_) (holds_iff_of_ne (c := c) (h := h) ?_ ?_ hg hd)
    · by_cases hj : j = k
      · subst hj
        simp [hk, hk', hd]
      · rw [hq j hj]
    · simp [hh]
    · simp [hh', eq_comm]
  · cases p with
    | inl j =>
        by_cases hj : j = k
        · subst hj
          simp [StoredAt, hk', hnodup.1]
        · have : c ∉ queue j := fun hp => hj (Sum.inl.inj (honly (.inl j) hp))
          simp [StoredAt, hq j hj, this]
    | inr g =>
        by_cases hgh : g = h
        · subst hgh
          simp [StoredAt, hh']
        · have : holds g ≠ some c := fun hp => nomatch honly (.inr g) hp
          simp [StoredAt, hg g hgh, this, Ne.symm hgh]
  · rw [he c, hf c]
    exact hl.inside c ⟨_, hat⟩

theorem putBack (hl : Ledger queue holds entered left) (hh : holds h = some c)
    (hk : queue' k = queue k ++ [c]) (hq : ∀ j, j ≠ k → queue' j = queue j)
    (hh' : holds' h = none) (hg : ∀ g, g ≠ h → holds' g = holds g)
    (he : ∀ d, entered' d = entered d) (hf : ∀ d, left' d = left d) :
    Ledger queue' holds' entered' left' := by
  have hat : StoredAt queue holds c (.inr h) := hh
  have honly : ∀ p, StoredAt queue holds c p → p = .inr h := fun p hp => hl.unique c p _ hp hat
  have hnot : ∀ j, c ∉ queue j := fun j hj => nomatch honly (.inl j) hj
  refine hl.move c (some (.inl k)) (hl.nodup_push (hnot k) hk hq) (fun d hd => ?_) (fun p => ?_)
    (fun _ => ?_) nofun (fun d _ => he d) (fun d _ => hf d)
  · refine storedAt_iff (mem_push_iff hk hq hd) (holds_iff_of_ne (c := c) (h := h) ?_ ?_ hg hd)
    · simp [hh, eq_comm]
    · simp [hh']
  · cases p with
    | inl j =>
        by_cases hj : j = k
        · subst hj
          simp [StoredAt, hk]
        · simp [StoredAt, hq j hj, hnot j, Ne.symm hj]
    | inr g =>
        by_cases hgh : g = h
        · subst hgh
          simp [StoredAt, hh']
        · have : holds g ≠ some c := fun hp => hgh (Sum.inr.inj (honly (.inr g) hp))
          simp [StoredAt, hg g hgh, this]
  · rw [he c, hf c]
    exact hl.inside c ⟨_, hat⟩

theorem acquire (hl : Ledger queue holds entered left) (hout : ¬ InCustody queue holds c)
    (hq : ∀ k, queue' k = queue k) (hh : holds h = none) (hh' : holds' h = some c)
    (hg : ∀ g, g ≠ h → holds' g = holds g) (hc : entered' c = entered c + 1)
    (he : ∀ d, d ≠ c → entered' d = entered d) (hf : ∀ d, left' d = left d) :
    Ledger queue' holds' entered' left' := by
  have hnot : ∀ p, ¬ StoredAt queue holds c p := fun p hp => hout ⟨p, hp⟩
  refine hl.move c (some (.inr h)) (fun k => hq k ▸ hl.nodup k) (fun d hd => ?_) (fun p => ?_)
    (fun _ => ?_) nofun he (fun d _ => hf d)
  · refine storedAt_iff (fun j => by rw [hq j]) (holds_iff_of_ne (c := c) (h := h) ?_ ?_ hg hd)
    · simp [hh]
    · simp [hh', eq_comm]
  · cases p with
    | inl j =>
        have : c ∉ queue j := hnot (.inl j)
        simp [StoredAt, hq j, this]
    | inr g =>
        by_cases hgh : g = h
        · subst hgh
          simp [StoredAt, hh']
        · have : holds g ≠ some c := hnot (.inr g)
          simp [StoredAt, hg g hgh, this, Ne.symm hgh]
  · have := hl.outside c hout
    have := hf c
    omega

theorem release (hl : Ledger queue holds entered left) (hh : holds h = some c)
    (hq : ∀ k, queue' k = queue k) (hh' : holds' h = none)
    (hg : ∀ g, g ≠ h → holds' g = holds g) (he : ∀ d, entered' d = entered d)
    (hc : left' c = left c + 1) (hf : ∀ d, d ≠ c → left' d = left d) :
    Ledger queue' holds' entered' left' := by
  have hat : StoredAt queue holds c (.inr h) := hh
  have honly : ∀ p, StoredAt queue holds c p → p = .inr h := fun p hp => hl.unique c p _ hp hat
  refine hl.move c none (fun k => hq k ▸ hl.nodup k) (fun d hd => ?_) (fun p => ?_) nofun
    (fun _ => ?_) (fun d _ => he d) hf
  · refine storedAt_iff (fun j => by rw [hq j]) (holds_iff_of_ne (c := c) (h := h) ?_ ?_ hg hd)
    · simp [hh, eq_comm]
    · simp [hh']
  · cases p with
    | inl j =>
        have : c ∉ queue j := fun hp => nomatch honly (.inl j) hp
        simp [StoredAt, hq j, this]
    | inr g =>
        by_cases hgh : g = h
        · subst hgh
          simp [StoredAt, hh']
        · have : holds g ≠ some c := fun hp => hgh (Sum.inr.inj (honly (.inr g) hp))
          simp [StoredAt, hg g hgh, this]
  · have := hl.inside c ⟨_, hat⟩
    have := he c
    omega

end Ledger

/-! Agents stand at program points, and the point says what is in which hand. -/

section Agents

variable {τ γ ω : Type*} [DecidableEq τ] {held : γ → ω → Option ι} {point : τ → γ} {t : τ} {p : γ}
  {x : ω}

def inHands (held : γ → ω → Option ι) (point : τ → γ) (h : τ × ω) : Option ι :=
  held (point h.1) h.2

theorem inHands_self : inHands held (Function.update point t p) (t, x) = held p x := by
  simp [inHands]

theorem inHands_of_ne (hother : ∀ y, y ≠ x → held p y = held (point t) y) :
    ∀ g, g ≠ (t, x) → inHands held (Function.update point t p) g = inHands held point g := by
  rintro ⟨u, y⟩ hg
  by_cases hu : u = t
  · subst hu
    have hy : y ≠ x := fun h => hg (by rw [h])
    rw [inHands_self, hother y hy]
    rfl
  · simp [inHands, Function.update_of_ne hu]

theorem inHands_update (hheld : ∀ y, held p y = held (point t) y) (g : τ × ω) :
    inHands held (Function.update point t p) g = inHands held point g := by
  by_cases hg : g = (t, g.2)
  · rw [hg, inHands_self, hheld]
    rfl
  · exact inHands_of_ne (fun y _ => hheld y) g hg

namespace Ledger

variable (hl : Ledger queue (inHands held point) entered left)
include hl

theorem agentStay (hq : ∀ k, queue' k = queue k) (hheld : ∀ y, held p y = held (point t) y) :
    Ledger queue' (inHands held (Function.update point t p)) entered left :=
  hl.congr hq (inHands_update hheld) (fun _ => rfl) fun _ => rfl

theorem agentTake (hk : queue k = c :: rest) (hk' : queue' k = rest)
    (hq : ∀ j, j ≠ k → queue' j = queue j) (hnone : held (point t) x = none)
    (hsome : held p x = some c) (hother : ∀ y, y ≠ x → held p y = held (point t) y) :
    Ledger queue' (inHands held (Function.update point t p)) entered left :=
  hl.take (h := (t, x)) hk hk' hq hnone (inHands_self.trans hsome) (inHands_of_ne hother)
    (fun _ => rfl) fun _ => rfl

theorem agentPutBack (hsome : held (point t) x = some c) (hk : queue' k = queue k ++ [c])
    (hq : ∀ j, j ≠ k → queue' j = queue j) (hnone : held p x = none)
    (hother : ∀ y, y ≠ x → held p y = held (point t) y) :
    Ledger queue' (inHands held (Function.update point t p)) entered left :=
  hl.putBack (h := (t, x)) hsome hk hq (inHands_self.trans hnone) (inHands_of_ne hother)
    (fun _ => rfl) fun _ => rfl

theorem agentEnter (hc : entered c = left c) (hk : queue' k = queue k ++ [c])
    (hq : ∀ j, j ≠ k → queue' j = queue j) (hheld : ∀ y, held p y = held (point t) y)
    (he : entered' c = entered c + 1) (he' : ∀ d, d ≠ c → entered' d = entered d) :
    Ledger queue' (inHands held (Function.update point t p)) entered' left :=
  hl.enter (hl.not_inCustody hc) hk hq (inHands_update hheld) he he' fun _ => rfl

theorem agentAcquire (hc : entered c = left c) (hq : ∀ k, queue' k = queue k)
    (hnone : held (point t) x = none) (hsome : held p x = some c)
    (hother : ∀ y, y ≠ x → held p y = held (point t) y) (he : entered' c = entered c + 1)
    (he' : ∀ d, d ≠ c → entered' d = entered d) :
    Ledger queue' (inHands held (Function.update point t p)) entered' left :=
  hl.acquire (h := (t, x)) (hl.not_inCustody hc) hq hnone (inHands_self.trans hsome)
    (inHands_of_ne hother) he he' fun _ => rfl

theorem agentRelease (hsome : held (point t) x = some c) (hq : ∀ k, queue' k = queue k)
    (hnone : held p x = none) (hother : ∀ y, y ≠ x → held p y = held (point t) y)
    (hf : left' c = left c + 1) (hf' : ∀ d, d ≠ c → left' d = left d) :
    Ledger queue' (inHands held (Function.update point t p)) entered left' :=
  hl.release (h := (t, x)) hsome hq (inHands_self.trans hnone) (inHands_of_ne hother)
    (fun _ => rfl) hf hf'

end Ledger

end Agents

/-! One item among the hands of agents and other places, which `elsewhere` counts. -/

section OneItem

variable {τ : Type*} {holds holds' : τ → Bool} {elsewhere elsewhere' : ℕ} {t : τ}

structure InOnePlace (holds : τ → Bool) (elsewhere : ℕ) : Prop where
  elsewhere_le : elsewhere ≤ 1
  elsewhere_eq : ∀ t, holds t = true → elsewhere = 0
  unique : ∀ t u, holds t = true → holds u = true → u = t

/-- What one agent gives away, another place can have, and the other way round. -/
theorem InOnePlace.update (hi : InOnePlace holds elsewhere)
    (hother : ∀ u, u ≠ t → holds' u = holds u)
    (hshare : (holds' t).toNat + elsewhere' ≤ (holds t).toNat + elsewhere) :
    InOnePlace holds' elsewhere' := by
  have hle : (holds t).toNat + elsewhere ≤ 1 := by
    cases ht : holds t with
    | false => simpa using hi.elsewhere_le
    | true => simp [hi.elsewhere_eq t ht]
  have hfree : ∀ u, u ≠ t → holds' u = true → holds' t = false ∧ elsewhere' = 0 := by
    intro u hu hh
    rw [hother u hu] at hh
    have ht : holds t = false := by
      by_contra ht
      exact hu (hi.unique t u (by simpa using ht) hh)
    rw [ht, hi.elsewhere_eq u hh, Bool.toNat_false] at hshare
    cases ht' : holds' t with
    | false => exact ⟨rfl, by omega⟩
    | true =>
        rw [ht', Bool.toNat_true] at hshare
        omega
  refine ⟨by omega, fun u hu => ?_, fun u v hu hv => ?_⟩
  · by_cases hut : u = t
    · subst hut
      rw [hu, Bool.toNat_true] at hshare
      omega
    · exact (hfree u hut hu).2
  · by_cases hut : u = t <;> by_cases hvt : v = t
    · exact hvt.trans hut.symm
    · rw [hut, (hfree v hvt hv).1] at hu
      cases hu
    · rw [hvt, (hfree u hut hu).1] at hv
      cases hv
    · exact hi.unique u v (hother u hut ▸ hu) (hother v hvt ▸ hv)

end OneItem
