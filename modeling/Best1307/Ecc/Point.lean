import Best1307.Ecc.Field
import Best1307.Lib.Homogeneous

/-!
# Sums of points

`ecc_p256.c`: points of the curve in the homogeneous coordinates that the code calls Jacobian. The result of a sum lies
apart from the points added. The special cases are decided twice: by the coordinates as they are stored, and again when
they have been brought to one denominator.
-/

namespace Best1307.Ecc

open BigHex256

/-- `ECC_Jacobian_Point256` -/
structure JacobianPoint256 where
  x : BigHex256
  y : BigHex256
  z : BigHex256

namespace JacobianPoint256

/-- `ecc_Jacobian_InfinityPoint256` -/
def infinityPoint256 : JacobianPoint256 :=
  ⟨⟨⟨[0, 0, 0, 0, 0, 0, 0, 0, 0], rfl⟩, 0, false⟩, ⟨⟨[0, 0, 0, 0, 0, 0, 0, 0, 1], rfl⟩, 1, false⟩,
    ⟨⟨[0, 0, 0, 0, 0, 0, 0, 0, 0], rfl⟩, 0, false⟩⟩

def coefB : BigHex256 :=
  ⟨⟨[0x00000000, 0x5ac635d8, 0xaa3a93e7, 0xb3ebbd55, 0x769886bc, 0x651d06b0, 0xcc53b0f6, 0x3bce3c3e, 0x27d2604b],
    rfl⟩, 8, false⟩

/-- The words are compared, and neither the lengths nor the signs. -/
def notEqual256 (a b : BigHex256) : Bool := a.num != b.num

def isInfinite256 (P : JacobianPoint256) : Bool :=
  !notEqual256 P.x infinityPoint256.x && !notEqual256 P.y infinityPoint256.y && !notEqual256 P.z infinityPoint256.z

/-- The test for a `y` of zero, which is written out wherever it is made. -/
def isZero (a : BigHex256) : Bool := a.len ≤ 1 && a.num.words.getLastD 0 == 0

/-- The point that `GF_Jacobian_Point_Double256` writes when it has not found the point at infinity. -/
def doubledPoint (P : JacobianPoint256) : JacobianPoint256 :=
  let X_plus_Z := addBigHexModP256 P.x P.z
  let X_minus_Z := subtractBigHexMod256 P.x P.z
  let W := multiplyBigHexByUint32_256 (multiplyBigHexModP256 X_plus_Z X_minus_Z) 3
  let S := multiplyBigHexModP256 P.y P.z
  let B := multiplyBigHexModP256 P.x (multiplyBigHexModP256 P.y S)
  let H := subtractBigHexMod256 (multiplyBigHexModP256 W W) (multiplyBigHexByUint32_256 B 8)
  let Y_sqr := multiplyBigHexModP256 P.y P.y
  let S_sqr := multiplyBigHexModP256 S S
  let int2 := multiplyBigHexByUint32_256 (multiplyBigHexModP256 Y_sqr S_sqr) 8
  let int4 := subtractBigHexMod256 (multiplyBigHexByUint32_256 B 4) H
  ⟨multiplyBigHexByUint32_256 (multiplyBigHexModP256 H S) 2,
    subtractBigHexMod256 (multiplyBigHexModP256 W int4) int2,
    multiplyBigHexByUint32_256 (multiplyBigHexModP256 S_sqr S) 8⟩

/-- `GF_Jacobian_Point_Double256`, with the value that it returns. -/
def gfJacobianPointDouble256 (P : JacobianPoint256) : Nat × JacobianPoint256 :=
  if isZero P.y || P.isInfinite256 then (0, infinityPoint256) else (0, doubledPoint P)

/-- The point that `GF_Jacobian_Point_Addition256` writes when no special case applies. -/
def addedPoint (P Q : JacobianPoint256) : JacobianPoint256 :=
  let U1 := multiplyBigHexModP256 Q.y P.z
  let U2 := multiplyBigHexModP256 P.y Q.z
  let V1 := multiplyBigHexModP256 Q.x P.z
  let V2 := multiplyBigHexModP256 P.x Q.z
  let U := subtractBigHexMod256 U1 U2
  let V := subtractBigHexMod256 V1 V2
  let W := multiplyBigHexModP256 P.z Q.z
  let V_sqr := multiplyBigHexModP256 V V
  let V_cube := multiplyBigHexModP256 V_sqr V
  let U_sqr := multiplyBigHexModP256 U U
  let V_sqr_mult_by_V2 := multiplyBigHexModP256 V_sqr V2
  let int4 := subtractBigHexMod256 (multiplyBigHexModP256 U_sqr W) V_cube
  let A := subtractBigHexMod256 int4 (multiplyBigHexByUint32_256 V_sqr_mult_by_V2 2)
  let int2 := multiplyBigHexModP256 U (subtractBigHexMod256 V_sqr_mult_by_V2 A)
  ⟨multiplyBigHexModP256 V A, subtractBigHexMod256 int2 (multiplyBigHexModP256 V_cube U2),
    multiplyBigHexModP256 V_cube W⟩

/-- The special case of a stored `x` that is the same: the stored `y` differs, or is zero. -/
def isOppositeStored (P Q : JacobianPoint256) : Bool :=
  !notEqual256 Q.x P.x && (notEqual256 Q.y P.y || isZero Q.y)

/-- `V1 == V2` -/
def hasSameX (P Q : JacobianPoint256) : Bool :=
  !notEqual256 (multiplyBigHexModP256 Q.x P.z) (multiplyBigHexModP256 P.x Q.z)

/-- `U1 == U2` -/
def hasSameY (P Q : JacobianPoint256) : Bool :=
  !notEqual256 (multiplyBigHexModP256 Q.y P.z) (multiplyBigHexModP256 P.y Q.z)

/-- `GF_Jacobian_Point_Addition256`, with the value that it returns. -/
def gfJacobianPointAddition256 (P Q : JacobianPoint256) : Nat × JacobianPoint256 :=
  if P.isInfinite256 then
    if Q.isInfinite256 then (0, infinityPoint256) else (0, Q)
  else if Q.isInfinite256 then (0, P)
  else if isOppositeStored P Q then (0, infinityPoint256)
  else if hasSameX P Q then
    if hasSameY P Q then (0, (gfJacobianPointDouble256 P).2) else (0, infinityPoint256)
  else (1, addedPoint P Q)

/-! ### The points of the curve -/

abbrev curveP256 : WeierstrassCurve.Affine (ZMod p256) := curve (coefB.value : ZMod p256)

def coordinates (P : JacobianPoint256) : Homogeneous (ZMod p256) := ⟨P.x.value, P.y.value, P.z.value⟩

/-- The numbers stand for the coordinates. -/
structure Denotes (P : JacobianPoint256) (c : Homogeneous (ZMod p256)) : Prop where
  x : P.x.Denotes c.X
  y : P.y.Denotes c.Y
  z : P.z.Denotes c.Z

/-- The point at infinity is represented by its words, any other one by coordinates of which the third is not zero. -/
def Represents (P : JacobianPoint256) : curveP256.Point → Prop
  | .zero => P.isInfinite256 = true
  | .some x y _ => ∃ c, P.Denotes c ∧ c.Of x y

variable {P Q : JacobianPoint256} {c d : Homogeneous (ZMod p256)}

theorem denotes_mk {x y z : BigHex256} (hx : x.Denotes c.X) (hy : y.Denotes c.Y) (hz : z.Denotes c.Z) :
    Denotes ⟨x, y, z⟩ c := ⟨hx, hy, hz⟩

theorem Denotes.coordinates_eq (hP : P.Denotes c) : P.coordinates = c := by
  rw [coordinates, hP.x.value, hP.y.value, hP.z.value]

theorem notEqual256_eq_false {a b : BigHex256} : notEqual256 a b = false ↔ a.num = b.num := by
  rw [notEqual256, bne_eq_false_iff_eq]

/-! ### The products that are formed -/

/-- The products of `doubledPoint` -/
@[mk_iff] structure DoubleWhole (c : Homogeneous (ZMod p256)) : Prop where
  w : IsWhole (c.X + c.Z) (c.X - c.Z)
  s : IsWhole c.Y c.Z
  ys : IsWhole c.Y c.doubleS
  b : IsWhole c.X (c.Y * c.doubleS)
  w_sqr : IsWhole c.doubleW c.doubleW
  y_sqr : IsWhole c.Y c.Y
  s_sqr : IsWhole c.doubleS c.doubleS
  ys_sqr : IsWhole (c.Y * c.Y) (c.doubleS * c.doubleS)
  wd : IsWhole c.doubleW c.doubleD
  x : IsWhole c.doubleH c.doubleS
  z : IsWhole (c.doubleS * c.doubleS) c.doubleS

/-- The products that bring two points to one denominator -/
@[mk_iff] structure CrossWhole (c d : Homogeneous (ZMod p256)) : Prop where
  u₁ : IsWhole d.Y c.Z
  u₂ : IsWhole c.Y d.Z
  v₁ : IsWhole d.X c.Z
  v₂ : IsWhole c.X d.Z

/-- The other products of `addedPoint` -/
@[mk_iff] structure AddWhole (c d : Homogeneous (ZMod p256)) : Prop where
  w : IsWhole c.Z d.Z
  v_sqr : IsWhole (c.addV d) (c.addV d)
  v_cube : IsWhole (c.addV d * c.addV d) (c.addV d)
  u_sqr : IsWhole (c.addU d) (c.addU d)
  v_sqr_v₂ : IsWhole (c.addV d * c.addV d) (c.X * d.Z)
  u_sqr_w : IsWhole (c.addU d * c.addU d) (c.Z * d.Z)
  x : IsWhole (c.addV d) (c.addA d)
  ua : IsWhole (c.addU d) (c.addV d * c.addV d * (c.X * d.Z) - c.addA d)
  v_cube_u₂ : IsWhole (c.addV d * c.addV d * c.addV d) (c.Y * d.Z)
  z : IsWhole (c.addV d * c.addV d * c.addV d) (c.Z * d.Z)

instance : Decidable (DoubleWhole c) := decidable_of_iff' _ (doubleWhole_iff c)

instance : Decidable (CrossWhole c d) := decidable_of_iff' _ (crossWhole_iff c d)

instance : Decidable (AddWhole c d) := decidable_of_iff' _ (addWhole_iff c d)

/-- Every product that a call of `GF_Jacobian_Point_Double256` forms is whole. -/
def DoublesWhole (P : JacobianPoint256) : Prop :=
  isZero P.y = false → P.isInfinite256 = false → DoubleWhole P.coordinates

/-- Every product that a call of `GF_Jacobian_Point_Addition256` forms is whole. -/
def AddsWhole (P Q : JacobianPoint256) : Prop :=
  P.isInfinite256 = false → Q.isInfinite256 = false → isOppositeStored P Q = false →
    CrossWhole P.coordinates Q.coordinates ∧
      if P.coordinates.addV Q.coordinates = 0 then P.coordinates.addU Q.coordinates = 0 → DoublesWhole P
      else AddWhole P.coordinates Q.coordinates

instance : Decidable (DoublesWhole P) := inferInstanceAs (Decidable (_ → _ → _))

instance : Decidable (AddsWhole P Q) := inferInstanceAs (Decidable (_ → _ → _ → _ ∧ ite _ _ _))

/-! ### The formulas -/

theorem Denotes.doubledPoint (hP : P.Denotes c) (hwhole : DoubleWhole c) : (doubledPoint P).Denotes c.double := by
  unfold JacobianPoint256.doubledPoint
  extract_lets X_plus_Z X_minus_Z W S B H Y_sqr S_sqr int2 int4
  have hW : W.Denotes c.doubleW :=
    ((hP.x.add hP.z).multiply (hP.x.subtract hP.z) hwhole.w).multiplyByUint32 3 rfl (by decide)
  have hS : S.Denotes c.doubleS := hP.y.multiply hP.z hwhole.s
  have hB : B.Denotes c.doubleB := hP.x.multiply (hP.y.multiply hS hwhole.ys) hwhole.b
  have height_B : (multiplyBigHexByUint32_256 B 8).Denotes (8 * c.doubleB) := hB.multiplyByUint32 8 rfl (by decide)
  have hfour_B : (multiplyBigHexByUint32_256 B 4).Denotes (4 * c.doubleB) := hB.multiplyByUint32 4 rfl (by decide)
  have hH : H.Denotes c.doubleH := by
    rw [Homogeneous.doubleH, sq]
    exact (hW.multiply hW hwhole.w_sqr).subtract height_B
  have hY_sqr : Y_sqr.Denotes (c.Y * c.Y) := hP.y.multiply hP.y hwhole.y_sqr
  have hS_sqr : S_sqr.Denotes (c.doubleS * c.doubleS) := hS.multiply hS hwhole.s_sqr
  have hint2 : int2.Denotes (8 * (c.Y ^ 2 * c.doubleS ^ 2)) := by
    rw [sq, sq]
    exact (hY_sqr.multiply hS_sqr hwhole.ys_sqr).multiplyByUint32 8 rfl (by decide)
  have hint4 : int4.Denotes c.doubleD := hfour_B.subtract hH
  have hcube : c.doubleS ^ 3 = c.doubleS * c.doubleS * c.doubleS := by ring
  apply denotes_mk
  case hx =>
    rw [Homogeneous.double_X]
    exact (hH.multiply hS hwhole.x).multiplyByUint32 2 rfl (by decide)
  case hy =>
    rw [Homogeneous.double_Y]
    exact (hW.multiply hint4 hwhole.wd).subtract hint2
  case hz =>
    rw [Homogeneous.double_Z, hcube]
    exact (hS_sqr.multiply hS hwhole.z).multiplyByUint32 8 rfl (by decide)

theorem Denotes.addedPoint (hP : P.Denotes c) (hQ : Q.Denotes d) (hcross : CrossWhole c d) (hwhole : AddWhole c d) :
    (addedPoint P Q).Denotes (c.add d) := by
  unfold JacobianPoint256.addedPoint
  extract_lets U1 U2 V1 V2 U V W V_sqr V_cube U_sqr V_sqr_mult_by_V2 int4 A int2
  have hU2 : U2.Denotes (c.Y * d.Z) := hP.y.multiply hQ.z hcross.u₂
  have hV2 : V2.Denotes (c.X * d.Z) := hP.x.multiply hQ.z hcross.v₂
  have hU : U.Denotes (c.addU d) := (hQ.y.multiply hP.z hcross.u₁).subtract hU2
  have hV : V.Denotes (c.addV d) := (hQ.x.multiply hP.z hcross.v₁).subtract hV2
  have hW : W.Denotes (c.Z * d.Z) := hP.z.multiply hQ.z hwhole.w
  have hV_sqr : V_sqr.Denotes (c.addV d * c.addV d) := hV.multiply hV hwhole.v_sqr
  have hV_cube : V_cube.Denotes (c.addV d * c.addV d * c.addV d) := hV_sqr.multiply hV hwhole.v_cube
  have hU_sqr : U_sqr.Denotes (c.addU d * c.addU d) := hU.multiply hU hwhole.u_sqr
  have hproduct : V_sqr_mult_by_V2.Denotes (c.addV d * c.addV d * (c.X * d.Z)) := hV_sqr.multiply hV2 hwhole.v_sqr_v₂
  have hint4 : int4.Denotes (c.addU d * c.addU d * (c.Z * d.Z) - c.addV d * c.addV d * c.addV d) :=
    (hU_sqr.multiply hW hwhole.u_sqr_w).subtract hV_cube
  have hcube : c.addV d ^ 3 = c.addV d * c.addV d * c.addV d := by ring
  have hA : A.Denotes (c.addA d) := by
    rw [Homogeneous.addA, sq, sq, hcube]
    exact hint4.subtract (hproduct.multiplyByUint32 2 rfl (by decide))
  have hint2 : int2.Denotes (c.addU d * (c.addV d * c.addV d * (c.X * d.Z) - c.addA d)) :=
    hU.multiply (hproduct.subtract hA) hwhole.ua
  apply denotes_mk
  case hx =>
    rw [Homogeneous.add_X]
    exact hV.multiply hA hwhole.x
  case hy =>
    rw [Homogeneous.add_Y, sq, hcube]
    exact hint2.subtract (hV_cube.multiply hU2 hwhole.v_cube_u₂)
  case hz =>
    rw [Homogeneous.add_Z, hcube]
    exact hV_cube.multiply hW hwhole.z

/-! ### The special cases -/

theorem isZero_iff {a : BigHex256} {x : ZMod p256} (ha : a.Denotes x) : isZero a = true ↔ x = 0 := by
  have hlast : a.num.words.getLastD 0 = 0 ↔ a.value % radix = 0 := by
    have hmod := Words.value_mod_of_dvd (β := radix) (d := radix) dvd_rfl a.num.words
    rw [BigHex256.value, Words.Number.value, hmod, Nat.mod_eq_of_lt (Fin.isLt _), Fin.ext_iff]
    rfl
  rw [isZero, Bool.and_eq_true, decide_eq_true_eq, beq_iff_eq, hlast, ← ZMod.val_eq_zero, ha.val]
  constructor
  · intro h
    have hlt : a.value < radix ^ 1 :=
      Nat.lt_of_lt_of_le ha.hasLength.value_lt (Nat.pow_le_pow_right (by decide) h.1)
    rw [pow_one] at hlt
    rw [← Nat.mod_eq_of_lt hlt, h.2]
  · intro h
    have hnum : a.num = Words.Number.zero := Words.Number.value_injective (h.trans (by decide))
    rw [ha.len, hnum, h]
    exact ⟨by decide, Nat.zero_mod _⟩

theorem isInfinite256_iff : P.isInfinite256 = true ↔
    P.x.num = infinityPoint256.x.num ∧ P.y.num = infinityPoint256.y.num ∧ P.z.num = infinityPoint256.z.num := by
  simp only [isInfinite256, Bool.and_eq_true, Bool.not_eq_true', notEqual256_eq_false, and_assoc]

theorem Denotes.isInfinite256_eq_false (hP : P.Denotes c) (hz : c.Z ≠ 0) : P.isInfinite256 = false := by
  rw [Bool.eq_false_iff, ne_eq, isInfinite256_iff]
  intro hinfinite
  have hvalue : P.z.value = 0 := by
    rw [BigHex256.value, hinfinite.2.2]
    decide
  apply hz
  rw [← hP.z.value, hvalue, Nat.cast_zero]

variable {p q : curveP256.Point}

theorem Represents.isInfinite256_iff (hP : P.Represents p) : P.isInfinite256 = true ↔ p = 0 := by
  cases p with
  | zero => exact iff_of_true hP rfl
  | some x y h =>
      obtain ⟨c, hc, hof⟩ := hP
      refine iff_of_false ?_ (WeierstrassCurve.Affine.Point.some_ne_zero h)
      rw [hc.isInfinite256_eq_false hof.z_ne_zero]
      exact Bool.false_ne_true

theorem represents_zero : P.Represents 0 ↔ P.isInfinite256 = true := Iff.rfl

theorem infinityPoint256_represents_iff : infinityPoint256.Represents p ↔ p = 0 := by
  constructor
  · intro h
    exact h.isInfinite256_iff.mp (by decide)
  · intro h
    rw [h, represents_zero]
    decide

theorem Denotes.represents (hP : P.Denotes c) (hc : c.Represents _ p) : P.Represents p := by
  cases p with
  | zero => exact hc.elim
  | some x y h => exact ⟨c, hP, hc⟩

theorem hasSameX_iff (hP : P.Denotes c) (hQ : Q.Denotes d) (hcross : CrossWhole c d) :
    hasSameX P Q = true ↔ d.X * c.Z = c.X * d.Z := by
  rw [hasSameX, Bool.not_eq_true', notEqual256_eq_false]
  exact (hQ.x.multiply hP.z hcross.v₁).num_eq_iff (hP.x.multiply hQ.z hcross.v₂)

theorem hasSameY_iff (hP : P.Denotes c) (hQ : Q.Denotes d) (hcross : CrossWhole c d) :
    hasSameY P Q = true ↔ d.Y * c.Z = c.Y * d.Z := by
  rw [hasSameY, Bool.not_eq_true', notEqual256_eq_false]
  exact (hQ.y.multiply hP.z hcross.u₁).num_eq_iff (hP.y.multiply hQ.z hcross.u₂)

/-! ### The point whose `x` is zero -/

/-- A square root of `coef_B` -/
def rootB : BigHex256 :=
  ⟨⟨[0x00000000, 0x66485c78, 0x0e2f83d7, 0x2433bd5d, 0x84a06bb6, 0x541c2af3, 0x1dae8717, 0x28bf856a, 0x174f93f4],
    rfl⟩, 8, false⟩

def pointOnAxis : JacobianPoint256 := ⟨infinityPoint256.x, rootB, infinityPoint256.y⟩

/-- The same point, with all coordinates doubled -/
def pointOnAxisScaled : JacobianPoint256 :=
  ⟨infinityPoint256.x,
    ⟨⟨[0x00000000, 0xcc90b8f0, 0x1c5f07ae, 0x48677abb, 0x0940d76c, 0xa83855e6, 0x3b5d0e2e, 0x517f0ad4, 0x2e9f27e8],
      rfl⟩, 8, false⟩,
    ⟨⟨[0, 0, 0, 0, 0, 0, 0, 0, 2], rfl⟩, 1, false⟩⟩

theorem nonsingular_curveP256 {x y : ZMod p256} (hequation : y ^ 2 = x ^ 3 - 3 * x + coefB.value) (hy : y ≠ -y) :
    curveP256.Nonsingular x y := by
  rw [WeierstrassCurve.Affine.nonsingular_iff, WeierstrassCurve.Affine.equation_iff]
  simp only [curve]
  refine ⟨?_, .inr ?_⟩
  · linear_combination hequation
  · rwa [zero_mul, sub_zero, sub_zero]

theorem nonsingular_rootB : curveP256.Nonsingular 0 (rootB.value : ZMod p256) :=
  nonsingular_curveP256 (by decide) (by decide)

theorem denotes_coordinates (hx : P.x.IsNormal) (hy : P.y.IsNormal) (hz : P.z.IsNormal) : P.Denotes P.coordinates :=
  ⟨hx.denotes, hy.denotes, hz.denotes⟩

theorem pointOnAxis_represents : pointOnAxis.Represents (.some 0 _ nonsingular_rootB) := by
  have hdenotes : pointOnAxis.Denotes pointOnAxis.coordinates := by
    apply denotes_coordinates <;> decide
  refine ⟨_, hdenotes, ?_⟩
  constructor <;> decide

theorem pointOnAxisScaled_represents : pointOnAxisScaled.Represents (.some 0 _ nonsingular_rootB) := by
  have hdenotes : pointOnAxisScaled.Denotes pointOnAxisScaled.coordinates := by
    apply denotes_coordinates <;> decide
  refine ⟨_, hdenotes, ?_⟩
  constructor <;> decide

theorem doublesWhole_pointOnAxis : DoublesWhole pointOnAxis := by
  intro _ _
  constructor <;> decide

theorem addsWhole_pointOnAxis : AddsWhole pointOnAxis pointOnAxis := by
  intro _ _ _
  have hsame : pointOnAxis.coordinates.addV pointOnAxis.coordinates = 0 := by decide
  rw [if_pos hsame]
  constructor
  · constructor <;> decide
  · exact fun _ => doublesWhole_pointOnAxis

/-! ### The sums -/

theorem two_ne_zero : (2 : ZMod p256) ≠ 0 := by decide

theorem gfJacobianPointDouble256_represents (hP : P.Represents p) (hwhole : DoublesWhole P) :
    (gfJacobianPointDouble256 P).2.Represents (p + p) := by
  rw [gfJacobianPointDouble256]
  cases p with
  | zero =>
      have hinfinite : P.isInfinite256 = true := hP
      rw [hinfinite, Bool.or_true, if_pos rfl, infinityPoint256_represents_iff]
      exact add_zero 0
  | some x y h =>
      obtain ⟨c, hc, hof⟩ := hP
      have hfinite := hc.isInfinite256_eq_false hof.z_ne_zero
      have hzero : isZero P.y = true ↔ y = 0 := by
        rw [isZero_iff hc.y, hof.y_eq, mul_eq_zero, or_iff_left hof.z_ne_zero]
      rw [hfinite, Bool.or_false]
      by_cases hy : y = 0
      · rw [if_pos (hzero.mpr hy), infinityPoint256_represents_iff]
        exact Homogeneous.point_add_self_of_y_zero hy
      · have hnonzero : isZero P.y = false := Bool.eq_false_iff.mpr (mt hzero.mp hy)
        have hdouble := hwhole hnonzero hfinite
        rw [hc.coordinates_eq] at hdouble
        rw [hnonzero, if_neg Bool.false_ne_true]
        exact (hc.doubledPoint hdouble).represents (Homogeneous.double_represents hof two_ne_zero hy)

/-- Where the stored coordinates do not decide, those with one denominator do. -/
theorem gfJacobianPointAddition256_represents_of_finite {x₁ y₁ x₂ y₂ : ZMod p256}
    {h₁ : curveP256.Nonsingular x₁ y₁} {h₂ : curveP256.Nonsingular x₂ y₂} (hP : P.Represents (.some x₁ y₁ h₁))
    (hQ : Q.Represents (.some x₂ y₂ h₂)) (hwhole : AddsWhole P Q) (hstored : isOppositeStored P Q = false) :
    (gfJacobianPointAddition256 P Q).2.Represents (.some x₁ y₁ h₁ + .some x₂ y₂ h₂) := by
  have hdoubled := @gfJacobianPointDouble256_represents P _ hP
  obtain ⟨c, hPc, hc⟩ := hP
  obtain ⟨d, hQd, hd⟩ := hQ
  have hfiniteP := hPc.isInfinite256_eq_false hc.z_ne_zero
  have hfiniteQ := hQd.isInfinite256_eq_false hd.z_ne_zero
  obtain ⟨hcross, hrest⟩ := hwhole hfiniteP hfiniteQ hstored
  rw [hPc.coordinates_eq, hQd.coordinates_eq] at hcross hrest
  have hsameX := (hasSameX_iff hPc hQd hcross).trans (hc.eq_iff_x hd)
  have hsameY := (hasSameY_iff hPc hQd hcross).trans (hc.eq_iff_y hd)
  have hV : c.addV d = 0 ↔ x₁ = x₂ := by rw [Homogeneous.addV, sub_eq_zero, hc.eq_iff_x hd]
  have hU : c.addU d = 0 ↔ y₁ = y₂ := by rw [Homogeneous.addU, sub_eq_zero, hc.eq_iff_y hd]
  rw [gfJacobianPointAddition256, hfiniteP, hfiniteQ, hstored]
  simp only [Bool.false_eq_true, if_false]
  by_cases hx : x₁ = x₂
  · rw [if_pos (hV.mpr hx)] at hrest
    rw [if_pos (hsameX.mpr hx)]
    by_cases hy : y₁ = y₂
    · rw [if_pos (hsameY.mpr hy)]
      subst hx hy
      exact hdoubled (hrest (hU.mpr rfl))
    · rw [if_neg (mt hsameY.mp hy), infinityPoint256_represents_iff]
      exact Homogeneous.point_add_of_y_ne hx hy
  · rw [if_neg (mt hV.mp hx)] at hrest
    rw [if_neg (mt hsameX.mp hx)]
    exact (hPc.addedPoint hQd hcross hrest).represents (Homogeneous.add_represents hc hd hx)

/-- The sum of points, when no product goes wrong and the stored coordinates do not decide. -/
theorem gfJacobianPointAddition256_represents (hP : P.Represents p) (hQ : Q.Represents q) (hwhole : AddsWhole P Q)
    (hstored : P.isInfinite256 = false → Q.isInfinite256 = false → isOppositeStored P Q = false) :
    (gfJacobianPointAddition256 P Q).2.Represents (p + q) := by
  cases hinfiniteP : P.isInfinite256 with
  | true =>
      have hp : p = 0 := hP.isInfinite256_iff.mp hinfiniteP
      rw [gfJacobianPointAddition256, hinfiniteP, hp, zero_add]
      cases hinfiniteQ : Q.isInfinite256 with
      | true => exact infinityPoint256_represents_iff.mpr (hQ.isInfinite256_iff.mp hinfiniteQ)
      | false => exact hQ
  | false =>
      cases hinfiniteQ : Q.isInfinite256 with
      | true =>
          have hq : q = 0 := hQ.isInfinite256_iff.mp hinfiniteQ
          rw [gfJacobianPointAddition256, hinfiniteP, hinfiniteQ, hq, add_zero]
          exact hP
      | false =>
          cases p with
          | zero => exact absurd hP (ne_true_of_eq_false hinfiniteP)
          | some x₁ y₁ h₁ =>
              cases q with
              | zero => exact absurd hQ (ne_true_of_eq_false hinfiniteQ)
              | some x₂ y₂ h₂ =>
                  exact gfJacobianPointAddition256_represents_of_finite hP hQ hwhole (hstored hinfiniteP hinfiniteQ)

/-- The sum and the double of points, when no product goes wrong: the stored coordinates may only decide for points that
are opposite. -/
theorem gfJacobianPoint256_represents_iff (hP : P.Represents p) (hQ : Q.Represents q) (hdouble : DoublesWhole P)
    (hadd : AddsWhole P Q) :
    (gfJacobianPointDouble256 P).2.Represents (p + p) ∧
      ((gfJacobianPointAddition256 P Q).2.Represents (p + q) ↔
        (P.isInfinite256 = false → Q.isInfinite256 = false → isOppositeStored P Q = true → q = -p)) := by
  refine ⟨gfJacobianPointDouble256_represents hP hdouble, ?_⟩
  by_cases hstored : P.isInfinite256 = false ∧ Q.isInfinite256 = false ∧ isOppositeStored P Q = true
  · obtain ⟨hfiniteP, hfiniteQ, hopposite⟩ := hstored
    have hresult : (gfJacobianPointAddition256 P Q).2 = infinityPoint256 := by
      rw [gfJacobianPointAddition256, hfiniteP, hfiniteQ, hopposite]
      rfl
    rw [hresult, infinityPoint256_represents_iff, add_comm, add_eq_zero_iff_eq_neg]
    exact ⟨fun h _ _ _ => h, fun h => h hfiniteP hfiniteQ hopposite⟩
  · refine iff_of_true (gfJacobianPointAddition256_represents hP hQ hadd fun hfiniteP hfiniteQ => ?_)
      fun hfiniteP hfiniteQ hopposite => absurd ⟨hfiniteP, hfiniteQ, hopposite⟩ hstored
    exact Bool.eq_false_iff.mpr fun hopposite => hstored ⟨hfiniteP, hfiniteQ, hopposite⟩

theorem pointOnAxis_twice :
    (gfJacobianPointAddition256 pointOnAxis pointOnAxis).2.Represents
      (.some 0 _ nonsingular_rootB + .some 0 _ nonsingular_rootB) := by
  apply (gfJacobianPoint256_represents_iff pointOnAxis_represents pointOnAxis_represents doublesWhole_pointOnAxis
    addsWhole_pointOnAxis).2.mpr
  intro _ _ hstored
  have hnot : isOppositeStored pointOnAxis pointOnAxis = false := by decide
  rw [hnot] at hstored
  exact Bool.noConfusion hstored

/-- Two representatives of one point are taken for opposite points, since their `x` is stored as zero both times. -/
theorem not_represents_pointOnAxisScaled : ¬∀ (P Q : JacobianPoint256) (p q : curveP256.Point), P.Represents p →
    Q.Represents q → (gfJacobianPointDouble256 P).2.Represents (p + p) ∧
      (gfJacobianPointAddition256 P Q).2.Represents (p + q) := by
  intro h
  have hsum := (h _ _ _ _ pointOnAxis_represents pointOnAxisScaled_represents).2
  have hinfinite : (gfJacobianPointAddition256 pointOnAxis pointOnAxisScaled).2.isInfinite256 = true := by
    decide
  obtain ⟨c, -, hof⟩ := pointOnAxis_represents
  have hroot : (rootB.value : ZMod p256) ≠ 0 := by decide
  have hdouble := @Homogeneous.double_represents _ _ _ _ _ _ _ nonsingular_rootB hof two_ne_zero hroot
  rw [hsum.isInfinite256_iff.mp hinfinite] at hdouble
  exact hdouble

end JacobianPoint256

end Best1307.Ecc
