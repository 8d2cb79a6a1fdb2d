import Mathlib.Algebra.BigOperators.Group.Finset.Basic
import Mathlib.Algebra.GroupWithZero.Nat
import Mathlib.Algebra.Order.BigOperators.Group.Finset

/-!
# Step systems, their runs, and conserved tallies

A step system is given by its start states and a partial step function; the
label of a step fixes every choice that the step leaves open. `ReachWhile G`
collects the states of all runs whose steps meet the condition `G`, and `Reach`
those of all runs. The rules below turn one-step facts into facts about runs.

The second part counts with a family of agents: when one agent changes, the sum
of a local tally over the family changes by that agent's share only.
-/

structure StepSystem (σ ℓ : Type*) where
  start : σ → Prop
  step : σ → ℓ → Option σ

namespace StepSystem

variable {σ ℓ τ κ : Type*} (M : StepSystem σ ℓ)

def exec (s : σ) : List ℓ → Option σ
  | [] => some s
  | a :: as => (M.step s a).bind fun s' => exec s' as

/-- States of the runs all of whose steps meet the condition `G`. -/
inductive ReachWhile (G : σ → ℓ → Prop) : σ → Prop
  | start {s : σ} : M.start s → ReachWhile G s
  | step {s s' : σ} {a : ℓ} :
      ReachWhile G s → G s a → M.step s a = some s' → ReachWhile G s'

abbrev Reach : σ → Prop := M.ReachWhile fun _ _ => True

@[simp] theorem exec_nil (s : σ) : M.exec s [] = some s := rfl

theorem exec_cons (s : σ) (a : ℓ) (as : List ℓ) :
    M.exec s (a :: as) = (M.step s a).bind fun s' => M.exec s' as := rfl

theorem exec_append (s : σ) (as bs : List ℓ) :
    M.exec s (as ++ bs) = (M.exec s as).bind fun s' => M.exec s' bs := by
  induction as generalizing s with
  | nil => rfl
  | cons a as ih =>
      rw [List.cons_append, exec_cons, exec_cons, Option.bind_assoc]
      simp only [ih]

theorem exec_concat {s s' : σ} {as : List ℓ} {a : ℓ} (h : M.exec s (as ++ [a]) = some s') :
    ∃ s₁, M.exec s as = some s₁ ∧ M.step s₁ a = some s' := by
  rw [exec_append, Option.bind_eq_some_iff] at h
  obtain ⟨s₁, h₁, h₂⟩ := h
  exact ⟨s₁, h₁, by simpa [exec_cons] using h₂⟩

variable {M}

theorem Reach.step {s s' : σ} {a : ℓ} (hs : M.Reach s) (ha : M.step s a = some s') :
    M.Reach s' := ReachWhile.step hs trivial ha

theorem ReachWhile.mono {G H : σ → ℓ → Prop} (hGH : ∀ s a, G s a → H s a) {s : σ}
    (hs : M.ReachWhile G s) : M.ReachWhile H s := by
  induction hs with
  | start h => exact .start h
  | step _ hg ha ih => exact .step ih (hGH _ _ hg) ha

theorem ReachWhile.reach {G : σ → ℓ → Prop} {s : σ} (hs : M.ReachWhile G s) : M.Reach s :=
  hs.mono fun _ _ _ => trivial

theorem Reach.exec {s s' : σ} {as : List ℓ} (hs : M.Reach s) (he : M.exec s as = some s') :
    M.Reach s' := by
  induction as generalizing s with
  | nil =>
      obtain rfl : s = s' := by simpa only [exec_nil, Option.some.injEq] using he
      exact hs
  | cons a as ih =>
      rw [exec_cons, Option.bind_eq_some_iff] at he
      obtain ⟨s₁, h₁, h₂⟩ := he
      exact ih (hs.step h₁) h₂

/-- A run that can be evaluated shows that a state with a decidable property is
reachable. -/
theorem Reach.exists_of_exec {P : σ → Prop} [DecidablePred P] {s : σ} (hs : M.Reach s)
    (as : List ℓ) (h : (M.exec s as).any (fun s' => P s') = true) : ∃ s', M.Reach s' ∧ P s' := by
  rw [Option.any_eq_true] at h
  obtain ⟨s', he, hp⟩ := h
  exact ⟨s', hs.exec he, of_decide_eq_true hp⟩

/-- The invariant rule for runs whose steps meet a condition. -/
theorem ReachWhile.invariant {G : σ → ℓ → Prop} {I : σ → Prop}
    (hstart : ∀ s, M.start s → I s)
    (hstep : ∀ s a s', I s → G s a → M.step s a = some s' → I s')
    {s : σ} (hs : M.ReachWhile G s) : I s := by
  induction hs with
  | start h => exact hstart _ h
  | step _ hg ha ih => exact hstep _ _ _ ih hg ha

theorem Reach.invariant {I : σ → Prop} (hstart : ∀ s, M.start s → I s)
    (hstep : ∀ s a s', I s → M.step s a = some s' → I s') {s : σ} (hs : M.Reach s) : I s :=
  ReachWhile.invariant hstart (fun s a s' hi _ ha => hstep s a s' hi ha) hs

/-- The same system without the steps that fail a decidable condition. -/
def restrict (M : StepSystem σ ℓ) (G : σ → ℓ → Prop) [∀ s a, Decidable (G s a)] :
    StepSystem σ ℓ where
  start := M.start
  step s a := if G s a then M.step s a else none

theorem Reach.reachWhile {G : σ → ℓ → Prop} [∀ s a, Decidable (G s a)] {s : σ}
    (hs : (M.restrict G).Reach s) : M.ReachWhile G s := by
  induction hs with
  | start h => exact .start h
  | step _ _ ha ih =>
      obtain ⟨hg, ha⟩ := Option.ite_none_right_eq_some.mp ha
      exact .step ih hg ha

/-- A run from `s` to a later state all of whose steps meet the condition `G`. -/
inductive RunWhile (M : StepSystem σ ℓ) (G : σ → ℓ → Prop) (s : σ) : σ → Prop
  | refl : RunWhile M G s s
  | step {s₁ s' : σ} {a : ℓ} :
      RunWhile M G s s₁ → G s₁ a → M.step s₁ a = some s' → RunWhile M G s s'

theorem RunWhile.reach {G : σ → ℓ → Prop} {s s' : σ} (h : M.RunWhile G s s')
    (hs : M.Reach s) : M.Reach s' := by
  induction h with
  | refl => exact hs
  | step _ _ ha ih => exact ih.step ha

theorem RunWhile.invariant {G : σ → ℓ → Prop} {I : σ → Prop}
    (hstep : ∀ s a s', M.Reach s → I s → G s a → M.step s a = some s' → I s') {s s' : σ}
    (hs : M.Reach s) (h : M.RunWhile G s s') (hi : I s) : I s' := by
  induction h with
  | refl => exact hi
  | step h hg ha ih => exact hstep _ _ _ (h.reach hs) ih hg ha

theorem RunWhile.of_exec {G : σ → ℓ → Prop} [∀ s a, Decidable (G s a)] {s s' : σ} (as : List ℓ)
    (he : (M.restrict G).exec s as = some s') : M.RunWhile G s s' := by
  induction as using List.reverseRecOn generalizing s' with
  | nil =>
      obtain rfl : s = s' := Option.some.inj he
      exact .refl
  | append_singleton as a ih =>
      obtain ⟨s₁, h₁, ha⟩ := exec_concat _ he
      obtain ⟨hg, ha⟩ := Option.ite_none_right_eq_some.mp ha
      exact (ih h₁).step hg ha

/-- A map under which every step is matched by a step or by no step. -/
structure Refines (M : StepSystem σ ℓ) (A : StepSystem τ κ) (abs : σ → τ) : Prop where
  start : ∀ s, M.start s → A.start (abs s)
  step : ∀ s a s', M.Reach s → M.step s a = some s' →
    abs s' = abs s ∨ ∃ b, A.step (abs s) b = some (abs s')

theorem Refines.reach {A : StepSystem τ κ} {abs : σ → τ} (h : M.Refines A abs) {s : σ}
    (hs : M.Reach s) : A.Reach (abs s) := by
  induction hs with
  | start h₀ => exact .start (h.start _ h₀)
  | step hr _ ha ih =>
      rcases h.step _ _ _ hr ha with he | ⟨b, hb⟩
      · exact he ▸ ih
      · exact ih.step hb

/-- Every run of steps in `G` comes to `P`: before that it can always go on, and it
cannot go on for ever. -/
inductive Inevitable (M : StepSystem σ ℓ) (G : ℓ → Prop) (P : σ → Prop) : σ → Prop
  | now {s : σ} : P s → Inevitable M G P s
  | later {s : σ} : (∃ a s', G a ∧ M.step s a = some s') →
      (∀ a s', G a → M.step s a = some s' → Inevitable M G P s') → Inevitable M G P s

/-- A rank that every step decreases, and steps that keep the invariant `I` until
`P` holds. -/
theorem inevitable_of_rank {G : ℓ → Prop} {I P : σ → Prop} (rank : σ → ℕ)
    (hnext : ∀ s, I s → ∃ a s', G a ∧ M.step s a = some s')
    (hstep : ∀ s a s', I s → G a → M.step s a = some s' → P s' ∨ I s' ∧ rank s' < rank s)
    {s : σ} (hs : I s) : M.Inevitable G P s := by
  induction hn : rank s using Nat.strong_induction_on generalizing s with
  | _ n ih =>
      refine .later (hnext s hs) fun a s' ha hstep' => ?_
      rcases hstep s a s' hs ha hstep' with hp | ⟨hi, hlt⟩
      · exact .now hp
      · exact ih _ (hn ▸ hlt) hi rfl

/-- A system whose steps decrease a rank comes to rest: only a state at rest has no
further step. -/
theorem inevitable_at_rest {G : ℓ → Prop} {I R P : σ → Prop} (rank : σ → ℕ)
    (hnext : ∀ s, I s → ¬R s → ∃ a s', G a ∧ M.step s a = some s')
    (hstep : ∀ s a s', I s → G a → M.step s a = some s' → I s' ∧ rank s' < rank s)
    (hrest : ∀ s, I s → R s → P s) {s : σ} (hs : I s) : M.Inevitable G P s := by
  by_cases hr : R s
  · exact .now (hrest s hs hr)
  refine inevitable_of_rank (I := fun s => I s ∧ ¬R s) rank (fun s h => hnext s h.1 h.2)
    (fun s a s' h ha hstep' => ?_) ⟨hs, hr⟩
  obtain ⟨hi, hlt⟩ := hstep s a s' h.1 ha hstep'
  by_cases hr' : R s'
  · exact .inl (hrest s' hi hr')
  · exact .inr ⟨⟨hi, hr'⟩, hlt⟩

end StepSystem

/-! The numerals of families of one, two and three agents, for closed runs. -/

instance (priority := high) neZeroOne : NeZero 1 := ⟨one_ne_zero⟩

instance (priority := high) neZeroTwo : NeZero 2 := ⟨two_ne_zero⟩

instance (priority := high) neZeroThree : NeZero 3 := ⟨three_ne_zero⟩

/-- Whatever holds of an agent after one was replaced, held before or is about the new one. -/
theorem agent_cases {ι α : Type*} [DecidableEq ι] {f g : ι → α} {i j : ι} {v : α} {Q : α → Prop}
    (hg : g = Function.update f i v) (h : Q (g j)) : j = i ∧ Q v ∨ j ≠ i ∧ Q (f j) := by
  by_cases hj : j = i
  · subst hj
    rw [hg, Function.update_self] at h
    exact .inl ⟨rfl, h⟩
  · rw [hg, Function.update_of_ne hj] at h
    exact .inr ⟨hj, h⟩

section Tally

variable {ι α : Type*} [Fintype ι]

/-- Replacing one agent exchanges its share of a tally and no other. -/
theorem sum_update_tally [DecidableEq ι] (f : ι → α) (g : α → ℕ) (i : ι) (v : α) :
    ∑ j, g (Function.update f i v j) + g (f i) = ∑ j, g (f j) + g v := by
  have hrest : ∑ j ∈ Finset.univ.erase i, g (Function.update f i v j) =
      ∑ j ∈ Finset.univ.erase i, g (f j) := by
    apply Finset.sum_congr rfl
    intro j hj
    rw [Function.update_of_ne (Finset.ne_of_mem_erase hj)]
  have h₁ := Finset.sum_erase_add Finset.univ (fun j => g (Function.update f i v j))
    (Finset.mem_univ i)
  have h₂ := Finset.sum_erase_add Finset.univ (fun j => g (f j)) (Finset.mem_univ i)
  simp only [Function.update_self] at h₁
  omega

theorem le_sum_tally (f : ι → α) (g : α → ℕ) (i : ι) : g (f i) ≤ ∑ j, g (f j) :=
  Finset.single_le_sum (f := fun j => g (f j)) (fun _ _ => Nat.zero_le _) (Finset.mem_univ i)

theorem exists_of_sum_tally_pos {f : ι → α} {g : α → ℕ} (h : 0 < ∑ j, g (f j)) :
    ∃ i, 0 < g (f i) := by
  by_contra! hz
  have : ∑ j, g (f j) = 0 := Finset.sum_eq_zero fun j _ => Nat.le_zero.mp (hz j)
  omega

theorem add_le_sum_tally [DecidableEq ι] (f : ι → α) (g : α → ℕ) {i j : ι} (hij : i ≠ j) :
    g (f i) + g (f j) ≤ ∑ k, g (f k) := by
  rw [← Finset.sum_pair (f := fun k => g (f k)) hij]
  exact Finset.sum_le_sum_of_subset (Finset.subset_univ _)

end Tally
