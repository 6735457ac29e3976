import Mathlib.GroupTheory.Perm.Cycle.Type
import Best1307.Lib.Homogeneous

/-!
# The number of points

A curve has at most two points for each `x`, and one at infinity. If a point has an order that is an odd prime and more
than a third of that, and the cubic has no root, so that no point is its own opposite, there are exactly as many points
as the order tells.
-/

namespace Best1307

variable {F : Type*} [Field F] {b : F}

/-! ### Two for each `x` -/

open Classical in
/-- A point by its `x`, and by whether its `y` is the one chosen among the two -/
noncomputable def pointCode : (curve b).Point → Option (F × Bool)
  | .zero => none
  | .some x y _ => some (x, decide (y = Classical.epsilon fun y => (curve b).Equation x y))

theorem pointCode_injective : Function.Injective (@pointCode F _ b) := by
  intro P Q heq
  cases P with
  | zero =>
      cases Q with
      | zero => rfl
      | some x y h => exact absurd heq.symm (Option.some_ne_none _)
  | some x₁ y₁ h₁ =>
      cases Q with
      | zero => exact absurd heq (Option.some_ne_none _)
      | some x₂ y₂ h₂ =>
          obtain ⟨hx, hy⟩ := Prod.mk.inj (Option.some.inj heq)
          subst hx
          rw [decide_eq_decide] at hy
          have hsame : y₁ = y₂ := by
            have hchosen : (curve b).Equation x₁ (Classical.epsilon fun y => (curve b).Equation x₁ y) :=
              Classical.epsilon_spec ⟨y₁, h₁.left⟩
            rcases WeierstrassCurve.Affine.Y_eq_of_X_eq h₁.left hchosen rfl with h | h
            · exact h.trans (hy.mp h).symm
            · rcases WeierstrassCurve.Affine.Y_eq_of_X_eq h₂.left hchosen rfl with h' | h'
              · exact (hy.mpr h').trans h'.symm
              · exact h.trans h'.symm
          subst hsame
          rfl

instance [Finite F] : Finite (curve b).Point := Finite.of_injective _ pointCode_injective

theorem card_point_le [Finite F] : Nat.card (curve b).Point ≤ 2 * Nat.card F + 1 := by
  have hle := Nat.card_le_card_of_injective _ (@pointCode_injective F _ b)
  rwa [Finite.card_option, Nat.card_prod, @Nat.card_eq_fintype_card Bool, Fintype.card_bool, Nat.mul_comm] at hle

/-! ### The group -/

variable [DecidableEq F]

/-- A point that is its own opposite gives a root of the cubic. -/
theorem root_of_add_self (htwo : (2 : F) ≠ 0) {P : (curve b).Point} (hP : P ≠ 0) (hself : P + P = 0) :
    ∃ x : F, x ^ 3 = 3 * x - b := by
  cases P with
  | zero => exact absurd rfl hP
  | some x y h =>
      by_cases hy : y = 0
      · have hequation := (WeierstrassCurve.Affine.equation_iff ..).mp h.left
        rw [hy] at hequation
        simp only [curve] at hequation
        exact ⟨x, by linear_combination -hequation⟩
      · rw [WeierstrassCurve.Affine.Point.add_self_of_Y_ne (Homogeneous.ne_negY htwo hy)] at hself
        exact absurd hself (WeierstrassCurve.Affine.Point.some_ne_zero _)

theorem card_point [Finite F] (htwo : (2 : F) ≠ 0) (hroot : ∀ x : F, x ^ 3 ≠ 3 * x - b) {n : Nat} (hodd : n % 2 = 1)
    {g : (curve b).Point} (horder : addOrderOf g = n) (hn : 2 * Nat.card F + 1 < 3 * n) :
    Nat.card (curve b).Point = n := by
  obtain ⟨m, hm⟩ := horder ▸ addOrderOf_dvd_natCard g
  have hle := @card_point_le F _ b _
  have hpos : 0 < Nat.card (curve b).Point := Nat.card_pos
  have hm1 : m = 1 ∨ m = 2 := by
    have hlt : m < 3 := Nat.lt_of_mul_lt_mul_left (a := n) (by omega)
    have hne : m ≠ 0 := by
      rintro rfl
      omega
    omega
  rcases hm1 with rfl | rfl
  · rw [hm, Nat.mul_one]
  · obtain ⟨P, hP⟩ := exists_prime_addOrderOf_dvd_card' 2 (hm ▸ Nat.dvd_mul_left 2 n)
    have hself : P + P = 0 := by rw [← two_nsmul, ← hP, addOrderOf_nsmul_eq_zero]
    have hne : P ≠ 0 := by
      rintro rfl
      rw [addOrderOf_zero] at hP
      exact absurd hP (by decide)
    obtain ⟨x, hx⟩ := root_of_add_self htwo hne hself
    exact absurd hx (hroot x)

end Best1307
