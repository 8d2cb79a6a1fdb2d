import Mathlib.Logic.Function.Basic
import Mathlib.Data.Fintype.Card
import Mathlib.Order.WellFounded

/-!
# Following pointers to a root

Every element points to at most one other. `LeadsTo` says that the pointers lead
from an element to the root and that no step starts at a blocked element. One
pointer is replaced at a time; the rules below say when the ways of the other
elements survive.
-/

/-- The pointers lead to the root, without a step from a blocked element. -/
inductive LeadsTo {α : Type*} (next : α → Option α) (root : α) (blocked : α → Prop) : α → Prop
  | root : LeadsTo next root blocked root
  | step {x y : α} : ¬blocked x → next x = some y → LeadsTo next root blocked y →
      LeadsTo next root blocked x

namespace LeadsTo

variable {α : Type*} {next : α → Option α} {root x : α} {blocked blocked' : α → Prop}

theorem mono (hb : ∀ y, blocked' y → blocked y) (h : LeadsTo next root blocked x) :
    LeadsTo next root blocked' x := by
  induction h with
  | root => exact .root
  | step hx hy _ ih => exact .step (fun h => hx (hb _ h)) hy ih

/-- Somebody points to the root when an element other than the root leads there. -/
theorem exists_pointer (h : LeadsTo next root blocked x) (hx : x ≠ root) :
    ∃ y, next y = some root := by
  induction h with
  | root => exact absurd rfl hx
  | @step x y hb hy _ ih =>
      by_cases hroot : y = root
      · exact ⟨x, hroot ▸ hy⟩
      · exact ih hroot

variable [DecidableEq α] {c r : α} {v : Option α}

theorem update_of_blocked (hc : blocked c) (h : LeadsTo next root blocked x) :
    LeadsTo (Function.update next c v) root blocked x := by
  induction h with
  | root => exact .root
  | @step x y hx hy _ ih =>
      have hne : x ≠ c := fun h => hx (h ▸ hc)
      exact .step hx (by rw [Function.update_of_ne hne, hy]) ih

theorem update_root (h : LeadsTo next root blocked x) :
    LeadsTo (Function.update next root v) root blocked x := by
  induction h with
  | root => exact .root
  | @step x y hx hy _ ih =>
      by_cases hroot : x = root
      · subst hroot
        exact .root
      · exact .step hx (by rw [Function.update_of_ne hroot, hy]) ih

/-- An element that nobody points to is on no other element's way. -/
theorem update_of_no_pointer (hc : ∀ y, next y ≠ some c) (hx : x ≠ c)
    (h : LeadsTo next root blocked x) : LeadsTo (Function.update next c v) root blocked x := by
  induction h with
  | root => exact .root
  | step hb hy _ ih =>
      refine .step hb (by rw [Function.update_of_ne hx, hy]) (ih ?_)
      rintro rfl
      exact hc _ hy

/-- A pointer is replaced by one to an element that leads to the root without
the element whose pointer is replaced. -/
theorem update_through (hc : ¬blocked c)
    (hr : LeadsTo next root (fun y => y = c ∨ blocked y) r) (h : LeadsTo next root blocked x) :
    LeadsTo (Function.update next c (some r)) root blocked x := by
  have hr' : LeadsTo (Function.update next c (some r)) root blocked r :=
    (hr.update_of_blocked (.inl rfl)).mono fun _ => .inr
  induction h with
  | root => exact .root
  | @step x y hx hy _ ih =>
      by_cases hxc : x = c
      · subst hxc
        exact .step hx (Function.update_self ..) hr'
      · exact .step hx (by rw [Function.update_of_ne hxc, hy]) ih

theorem self_update (hc : ¬blocked c)
    (hr : LeadsTo next root (fun y => y = c ∨ blocked y) r) :
    LeadsTo (Function.update next c (some r)) root blocked c :=
  .step hc (Function.update_self ..) ((hr.update_of_blocked (.inl rfl)).mono fun _ => .inr)

end LeadsTo

/-- The way to the root avoids an element that the pointers do not lead to. -/
theorem LeadsTo.avoiding {α : Type*} {next : α → Option α} {root c x : α} {blocked : α → Prop}
    (hc : ¬LeadsTo next c (fun _ => False) x) (h : LeadsTo next root blocked x) :
    LeadsTo next root (fun y => y = c ∨ blocked y) x := by
  induction h with
  | root => exact .root
  | @step x y hx hy _ ih =>
      have hxc : x ≠ c := by
        rintro rfl
        exact hc .root
      exact .step (not_or.mpr ⟨hxc, hx⟩) hy (ih fun h => hc (.step not_false hy h))

/-- Whether at most `n` steps lead to an end, and not through `c`. -/
def endsWithin {α : Type*} [DecidableEq α] (next : α → Option α) (c : α) : ℕ → α → Bool
  | 0, _ => false
  | n + 1, x => x ≠ c && (next x).all (endsWithin next c n)

theorem not_leadsTo_of_endsWithin {α : Type*} [DecidableEq α] {next : α → Option α} {c x : α}
    {n : ℕ} (h : endsWithin next c n x = true) : ¬LeadsTo next c (fun _ => False) x := by
  induction n generalizing x with
  | zero => cases h
  | succ n ih =>
      simp only [endsWithin, Bool.and_eq_true, decide_eq_true_eq] at h
      intro hlead
      cases hlead with
      | root => exact h.1 rfl
      | step _ hy hlead =>
          rw [hy, Option.all_some] at h
          exact ih h.2 hlead

theorem LeadsTo.trans {α : Type*} {next : α → Option α} {x y z : α} {blocked : α → Prop}
    (hy : LeadsTo next y blocked x) (hz : LeadsTo next z blocked y) :
    LeadsTo next z blocked x := by
  induction hy with
  | root => exact hz
  | step hb hx _ ih => exact .step hb hx ih

/-- A way that uses the new pointer goes on from the element that it points to. -/
theorem LeadsTo.of_update {α : Type*} [DecidableEq α] {next : α → Option α} {root c x : α}
    {v : Option α} {blocked : α → Prop}
    (h : LeadsTo (Function.update next c v) root blocked x) :
    LeadsTo next root blocked x ∨ LeadsTo (Function.update next c v) c blocked x ∧
      ∃ r, v = some r ∧ LeadsTo (Function.update next c v) root blocked r := by
  induction h with
  | root => exact .inl .root
  | @step x y hb hy hlead ih =>
      by_cases hxc : x = c
      · subst hxc
        rw [Function.update_self] at hy
        exact .inr ⟨.root, y, hy, hlead⟩
      · rcases ih with ih | ⟨hc, hr⟩
        · rw [Function.update_of_ne hxc] at hy
          exact .inl (.step hb hy ih)
        · exact .inr ⟨.step hb hy hc, hr⟩

/-- No pointers lead from an element back to it. -/
def NoCycle {α : Type*} (next : α → Option α) : Prop :=
  ∀ x y, next x = some y → ¬LeadsTo next x (fun _ => False) y

namespace NoCycle

variable {α : Type*} {next : α → Option α}

theorem update [DecidableEq α] {c : α} {v : Option α} (h : NoCycle next)
    (hv : ∀ r, v = some r → ¬LeadsTo next c (fun _ => False) r) :
    NoCycle (Function.update next c v) := by
  have hback : ∀ r, v = some r → ¬LeadsTo (Function.update next c v) c (fun _ => False) r := by
    intro r hr hlead
    have hold := hlead.update_root (v := next c)
    rw [Function.update_idem, Function.update_eq_self] at hold
    exact hv r hr hold
  intro x y hxy hlead
  by_cases hxc : x = c
  · subst hxc
    rw [Function.update_self] at hxy
    exact hback y hxy hlead
  · rcases hlead.of_update with hlead | ⟨hc, r, hr, hlead⟩
    · rw [Function.update_of_ne hxc] at hxy
      exact h x y hxy hlead
    · exact hback r hr (hlead.trans (.step not_false hxy hc))

/-- Among finitely many elements, some element with a property has nobody with it pointing to
it. -/
theorem exists_first [Finite α] (h : NoCycle next) {P : α → Prop} (hP : ∃ x, P x) :
    ∃ x, P x ∧ ∀ y, next y = some x → ¬P y := by
  let before (y x : α) : Prop := ∃ z, next y = some z ∧ LeadsTo next x (fun _ => False) z
  have : IsTrans α before := ⟨fun _ _ _ ⟨z, hz, hlead⟩ ⟨_, hw, hlead'⟩ =>
    ⟨z, hz, hlead.trans (.step not_false hw hlead')⟩⟩
  have : Std.Irrefl before := ⟨fun x ⟨z, hz, hlead⟩ => h x z hz hlead⟩
  obtain ⟨x, hx, hmin⟩ := (Finite.wellFounded_of_trans_of_irrefl before).has_min {x | P x} hP
  exact ⟨x, hx, fun y hy hPy => hmin y hPy ⟨x, hy, .root⟩⟩

end NoCycle
