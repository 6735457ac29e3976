import Mathlib.AlgebraicGeometry.EllipticCurve.Affine.Point
import Mathlib.Tactic.FieldSimp

/-!
# Points in homogeneous coordinates

The curves `y² = x³ - 3x + b` over a field. A point that is not at infinity is given by three coordinates of which the
third is not zero, and which are only determined up to a factor. Sums are worked out without a division.
-/

namespace Best1307

variable {F : Type*} [Field F]

/-- `y² = x³ - 3x + b` -/
def curve (b : F) : WeierstrassCurve.Affine F := ⟨0, 0, 0, -3, b⟩

structure Homogeneous (F : Type*) where
  X : F
  Y : F
  Z : F

namespace Homogeneous

structure Of (c : Homogeneous F) (x y : F) : Prop where
  z_ne_zero : c.Z ≠ 0
  x_eq : c.X = x * c.Z
  y_eq : c.Y = y * c.Z

section Add

variable (c d : Homogeneous F)

def addU : F := d.Y * c.Z - c.Y * d.Z

def addV : F := d.X * c.Z - c.X * d.Z

def addA : F := addU c d ^ 2 * (c.Z * d.Z) - addV c d ^ 3 - 2 * (addV c d ^ 2 * (c.X * d.Z))

/-- The sum of two points that do not have the same `x` -/
def add : Homogeneous F where
  X := addV c d * addA c d
  Y := addU c d * (addV c d ^ 2 * (c.X * d.Z) - addA c d) - addV c d ^ 3 * (c.Y * d.Z)
  Z := addV c d ^ 3 * (c.Z * d.Z)

theorem add_X : (add c d).X = addV c d * addA c d := rfl

theorem add_Y : (add c d).Y =
    addU c d * (addV c d ^ 2 * (c.X * d.Z) - addA c d) - addV c d ^ 3 * (c.Y * d.Z) := rfl

theorem add_Z : (add c d).Z = addV c d ^ 3 * (c.Z * d.Z) := rfl

end Add

section Double

variable (c : Homogeneous F)

def doubleW : F := 3 * ((c.X + c.Z) * (c.X - c.Z))

def doubleS : F := c.Y * c.Z

def doubleB : F := c.X * (c.Y * doubleS c)

def doubleH : F := doubleW c ^ 2 - 8 * doubleB c

def doubleD : F := 4 * doubleB c - doubleH c

def double : Homogeneous F where
  X := 2 * (doubleH c * doubleS c)
  Y := doubleW c * (4 * doubleB c - doubleH c) - 8 * (c.Y ^ 2 * doubleS c ^ 2)
  Z := 8 * doubleS c ^ 3

theorem double_X : (double c).X = 2 * (doubleH c * doubleS c) := rfl

theorem double_Y : (double c).Y = doubleW c * doubleD c - 8 * (c.Y ^ 2 * doubleS c ^ 2) := rfl

theorem double_Z : (double c).Z = 8 * doubleS c ^ 3 := rfl

end Double

variable {b : F} {c d : Homogeneous F} {x₁ y₁ x₂ y₂ : F}

theorem Of.eq_iff_x (hc : c.Of x₁ y₁) (hd : d.Of x₂ y₂) : d.X * c.Z = c.X * d.Z ↔ x₁ = x₂ := by
  have hfactor : d.X * c.Z - c.X * d.Z = (x₂ - x₁) * (c.Z * d.Z) := by
    rw [hc.x_eq, hd.x_eq]
    ring
  have hz : c.Z * d.Z ≠ 0 := mul_ne_zero hc.z_ne_zero hd.z_ne_zero
  rw [← sub_eq_zero, hfactor, mul_eq_zero, or_iff_left hz, sub_eq_zero, eq_comm]

theorem Of.eq_iff_y (hc : c.Of x₁ y₁) (hd : d.Of x₂ y₂) : d.Y * c.Z = c.Y * d.Z ↔ y₁ = y₂ := by
  have hfactor : d.Y * c.Z - c.Y * d.Z = (y₂ - y₁) * (c.Z * d.Z) := by
    rw [hc.y_eq, hd.y_eq]
    ring
  have hz : c.Z * d.Z ≠ 0 := mul_ne_zero hc.z_ne_zero hd.z_ne_zero
  rw [← sub_eq_zero, hfactor, mul_eq_zero, or_iff_left hz, sub_eq_zero, eq_comm]

theorem negY_curve (x y : F) : (curve b).negY x y = -y := by
  simp only [WeierstrassCurve.Affine.negY, curve]
  ring

/-- Only a point with `y = 0` is its own opposite. -/
theorem ne_negY {x y : F} (htwo : (2 : F) ≠ 0) (hy : y ≠ 0) : y ≠ (curve b).negY x y := by
  rw [negY_curve]
  intro hself
  have hdouble : 2 * y = 0 := by linear_combination hself
  exact mul_ne_zero htwo hy hdouble

/-! ### The group -/

variable [DecidableEq F]

theorem Of.add (hc : c.Of x₁ y₁) (hd : d.Of x₂ y₂) (hx : x₁ ≠ x₂) :
    (add c d).Of ((curve b).addX x₁ x₂ ((curve b).slope x₁ x₂ y₁ y₂))
      ((curve b).addY x₁ x₂ y₁ ((curve b).slope x₁ x₂ y₁ y₂)) := by
  have hz₁ := hc.z_ne_zero
  have hz₂ := hd.z_ne_zero
  have hsub : x₁ - x₂ ≠ 0 := sub_ne_zero.mpr hx
  have hU : addU c d = -((y₁ - y₂) * (c.Z * d.Z)) := by
    rw [addU, hc.y_eq, hd.y_eq]
    ring
  have hV : addV c d = -((x₁ - x₂) * (c.Z * d.Z)) := by
    rw [addV, hc.x_eq, hd.x_eq]
    ring
  have hv : addV c d ≠ 0 := by
    rw [hV]
    exact neg_ne_zero.mpr (mul_ne_zero hsub (mul_ne_zero hz₁ hz₂))
  rw [WeierstrassCurve.Affine.slope_of_X_ne hx]
  refine ⟨mul_ne_zero (pow_ne_zero 3 hv) (mul_ne_zero hz₁ hz₂), ?_, ?_⟩
  · simp only [Homogeneous.add, addA, hU, hV, hc.x_eq, WeierstrassCurve.Affine.addX, curve]
    field_simp
    ring
  · simp only [Homogeneous.add, addA, hU, hV, hc.x_eq, hc.y_eq, WeierstrassCurve.Affine.addY,
      WeierstrassCurve.Affine.negY, WeierstrassCurve.Affine.negAddY, WeierstrassCurve.Affine.addX, curve]
    field_simp
    ring

theorem Of.double (hc : c.Of x₁ y₁) (htwo : (2 : F) ≠ 0) (hy : y₁ ≠ 0) :
    (double c).Of ((curve b).addX x₁ x₁ ((curve b).slope x₁ x₁ y₁ y₁))
      ((curve b).addY x₁ x₁ y₁ ((curve b).slope x₁ x₁ y₁ y₁)) := by
  have hz := hc.z_ne_zero
  have hslope : (curve b).slope x₁ x₁ y₁ y₁ = (3 * x₁ ^ 2 - 3) / (2 * y₁) := by
    rw [WeierstrassCurve.Affine.slope_of_Y_ne rfl (ne_negY htwo hy)]
    simp only [WeierstrassCurve.Affine.negY, curve]
    congr 1 <;> ring
  have height : (8 : F) ≠ 0 := by
    have hcube : (8 : F) = 2 ^ 3 := by norm_num
    rw [hcube]
    exact pow_ne_zero 3 htwo
  have hS : doubleS c ≠ 0 := by
    rw [doubleS, hc.y_eq]
    exact mul_ne_zero (mul_ne_zero hy hz) hz
  rw [hslope]
  refine ⟨mul_ne_zero height (pow_ne_zero 3 hS), ?_, ?_⟩
  · simp only [Homogeneous.double, doubleH, doubleB, doubleW, doubleS, hc.x_eq, hc.y_eq,
      WeierstrassCurve.Affine.addX, curve]
    field_simp
    ring
  · simp only [Homogeneous.double, doubleH, doubleB, doubleW, doubleS, hc.x_eq, hc.y_eq,
      WeierstrassCurve.Affine.addY, WeierstrassCurve.Affine.negY, WeierstrassCurve.Affine.negAddY,
      WeierstrassCurve.Affine.addX, curve]
    field_simp
    ring

/-- The coordinates are those of a point that is not at infinity. -/
def Represents (b : F) (c : Homogeneous F) : (curve b).Point → Prop
  | .zero => False
  | .some x y _ => c.Of x y

section Group

variable {h₁ : (curve b).Nonsingular x₁ y₁} {h₂ : (curve b).Nonsingular x₂ y₂}

theorem point_add_of_y_ne (hx : x₁ = x₂) (hy : y₁ ≠ y₂) :
    (WeierstrassCurve.Affine.Point.some x₁ y₁ h₁ : (curve b).Point) + .some x₂ y₂ h₂ = 0 := by
  apply WeierstrassCurve.Affine.Point.add_of_Y_eq hx
  exact (WeierstrassCurve.Affine.Y_eq_of_X_eq h₁.left h₂.left hx).resolve_left hy

theorem point_add_self_of_y_zero (hy : y₁ = 0) :
    (WeierstrassCurve.Affine.Point.some x₁ y₁ h₁ : (curve b).Point) + .some x₁ y₁ h₁ = 0 := by
  apply WeierstrassCurve.Affine.Point.add_self_of_Y_eq
  rw [negY_curve, hy, neg_zero]

theorem add_represents (hc : c.Of x₁ y₁) (hd : d.Of x₂ y₂) (hx : x₁ ≠ x₂) :
    (Homogeneous.add c d).Represents b (.some x₁ y₁ h₁ + .some x₂ y₂ h₂) := by
  rw [WeierstrassCurve.Affine.Point.add_of_X_ne hx]
  exact hc.add hd hx

theorem double_represents (hc : c.Of x₁ y₁) (htwo : (2 : F) ≠ 0) (hy : y₁ ≠ 0) :
    (Homogeneous.double c).Represents b (.some x₁ y₁ h₁ + .some x₁ y₁ h₁) := by
  rw [WeierstrassCurve.Affine.Point.add_self_of_Y_ne (ne_negY htwo hy)]
  exact hc.double htwo hy

end Group

end Homogeneous

end Best1307
