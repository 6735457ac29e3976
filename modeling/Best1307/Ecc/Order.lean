import Best1307.Ecc.Point
import Best1307.Lib.CubicRoot
import Best1307.Lib.CurveCard
import Best1307.Lib.Lucas
import Best1307.Lib.Multiples

/-!
# The base point

The multiples of the base point of `ecc_p256.c` are all the points of the curve, and there are as many as a prime tells.
So a multiple by a number below this prime, other than zero, tells the point that was multiplied.
-/

namespace Best1307.Ecc

def orderP256 : Nat := 0xffffffff00000000ffffffffffffffffbce6faada7179e84f3b9cac2fc632551

theorem prime_orderP256 : orderP256.Prime := by
  have h1 : Nat.Prime 187019741 := by
    refine Lucas.prime_of_check 2 [(2, 2), (5, 1), (9350987, 1)] (by norm_num) (by decide +kernel) ?_
    simp only [List.forall_mem_cons, List.not_mem_nil, false_imp_iff, implies_true, and_true]
    norm_num
  have h2 : Nat.Prime 311245691 := by
    refine Lucas.prime_of_check 2 [(2, 1), (5, 1), (7, 1), (17, 1), (29, 2), (311, 1)]
      (by norm_num) (by decide +kernel) ?_
    simp only [List.forall_mem_cons, List.not_mem_nil, false_imp_iff, implies_true, and_true]
    norm_num
  have h3 : Nat.Prime 622491383 := by
    refine Lucas.prime_of_check 5 [(2, 1), (311245691, 1)] (by norm_num) (by decide +kernel) ?_
    simp only [List.forall_mem_cons, List.not_mem_nil, false_imp_iff, implies_true, and_true, h2]
    norm_num
  have h4 : Nat.Prime 1002328039319 := by
    refine Lucas.prime_of_check 19 [(2, 1), (126241, 1), (3969899, 1)] (by norm_num) (by decide +kernel) ?_
    simp only [List.forall_mem_cons, List.not_mem_nil, false_imp_iff, implies_true, and_true]
    norm_num
  have h5 : Nat.Prime 191039911 := by
    refine Lucas.prime_of_check 3 [(2, 1), (3, 1), (5, 1), (41, 1), (155317, 1)]
      (by norm_num) (by decide +kernel) ?_
    simp only [List.forall_mem_cons, List.not_mem_nil, false_imp_iff, implies_true, and_true]
    norm_num
  have h6 : Nat.Prime 208150935158385979 := by
    refine Lucas.prime_of_check 2 [(2, 1), (3, 1), (11, 1), (43, 1), (127, 1), (3023, 1), (191039911, 1)]
      (by norm_num) (by decide +kernel) ?_
    simp only [List.forall_mem_cons, List.not_mem_nil, false_imp_iff, implies_true, and_true, h5]
    norm_num
  have h7 : Nat.Prime 2624747550333869278416773953 := by
    refine Lucas.prime_of_check 7 [(2, 6), (3, 2), (1297, 1), (16879, 1), (208150935158385979, 1)]
      (by norm_num) (by decide +kernel) ?_
    simp only [List.forall_mem_cons, List.not_mem_nil, false_imp_iff, implies_true, and_true, h6]
    norm_num
  refine Lucas.prime_of_check 7 [(2, 4), (3, 1), (71, 1), (131, 1), (373, 1), (3407, 1), (17449, 1), (38189, 1),
    (187019741, 1), (622491383, 1), (1002328039319, 1), (2624747550333869278416773953, 1)]
    (by rw [orderP256]; norm_num) (by decide +kernel) ?_
  simp only [List.forall_mem_cons, List.not_mem_nil, false_imp_iff, implies_true, and_true, h1, h3, h4, h7]
  norm_num

instance : Fact orderP256.Prime := ⟨prime_orderP256⟩

namespace JacobianPoint256

open Homogeneous (toField ladderMod sameMod ofBits represents_ladderMod represents_sameMod)

/-- `BasePoint_x_256` and `BasePoint_y_256` -/
def baseNumbers : Homogeneous Nat :=
  ⟨0x6b17d1f2e12c4247f8bce6e563a440f277037d812deb33a0f4a13945d898c296,
    0x4fe342e2fe1a7f9b8ee7eb4a7c0f9e162bce33576b315ececbb6406837bf51f5, 1⟩

theorem nonsingular_base : curveP256.Nonsingular (baseNumbers.X : ZMod p256) (baseNumbers.Y : ZMod p256) :=
  nonsingular_curveP256 (by decide) (by decide)

def basePoint : curveP256.Point := .some _ _ nonsingular_base

theorem baseNumbers_represents : (toField (ZMod p256) baseNumbers).Represents _ basePoint := by
  refine ⟨?_, ?_, ?_⟩ <;> decide

theorem p256_pos : 0 < p256 := prime_p256.pos

theorem ladder_represents {bits : List Bool} {m : Nat} {c : Homogeneous Nat} (hm : ofBits 1 bits = m)
    (h : (ladderMod p256 baseNumbers bits baseNumbers).any (sameMod p256 · c) = true) :
    (toField (ZMod p256) c).Represents _ (m • basePoint) := by
  obtain ⟨c', hc', hsame⟩ := (Option.any_eq_true ..).mp h
  have hbase : (toField (ZMod p256) baseNumbers).Represents _ (1 • basePoint) := by
    rw [one_nsmul]
    exact baseNumbers_represents
  exact hm ▸ represents_sameMod (represents_ladderMod p256_pos two_ne_zero baseNumbers_represents hbase hc') hsame

def bitsOf (n : Nat) : List Bool := ((List.range (n.size - 1)).map n.testBit).reverse

/-- One multiple less than the order is the opposite of the base point. -/
theorem order_pred_nsmul {m : Nat} (hm : orderP256 - 1 = m) : m • basePoint = -basePoint := by
  have hbits : ofBits 1 (bitsOf (orderP256 - 1)) = orderP256 - 1 := by decide +kernel
  have hladder := @ladder_represents (bitsOf (orderP256 - 1)) m ⟨baseNumbers.X, p256 - baseNumbers.Y, 1⟩
    (hbits.trans hm) (by decide +kernel)
  have hcast : ((p256 - baseNumbers.Y : Nat) : ZMod p256) = -baseNumbers.Y := by
    rw [Nat.cast_sub (by decide), ZMod.natCast_self, zero_sub]
  cases hmultiple : m • basePoint with
  | zero =>
      rw [hmultiple] at hladder
      exact hladder.elim
  | some x y h =>
      rw [hmultiple] at hladder
      have hof : (toField (ZMod p256) ⟨baseNumbers.X, p256 - baseNumbers.Y, 1⟩).Of x y := hladder
      have hx : x = baseNumbers.X := by
        rw [← mul_one x, ← Nat.cast_one]
        exact hof.x_eq.symm
      have hy : y = -baseNumbers.Y := by
        rw [← mul_one y, ← hcast, ← Nat.cast_one]
        exact hof.y_eq.symm
      subst hx hy
      rw [basePoint, WeierstrassCurve.Affine.Point.neg_some, WeierstrassCurve.Affine.Point.some.injEq]
      exact ⟨rfl, (Homogeneous.negY_curve _ _).symm⟩

theorem addOrderOf_basePoint : addOrderOf basePoint = orderP256 := by
  apply addOrderOf_eq_prime
  · obtain ⟨m, hm⟩ : ∃ m, orderP256 - 1 = m := ⟨_, rfl⟩
    have hsucc : orderP256 = m + 1 := by
      rw [← hm]
      decide
    rw [hsucc, succ_nsmul, order_pred_nsmul hm, neg_add_cancel]
  · exact WeierstrassCurve.Affine.Point.some_ne_zero _

/-! ### All points -/

/-- The inverse of the power of `x` by the prime, less `x`, modulo the cubic of the curve -/
def cubicInverse : Cubic.Residue :=
  ⟨76626890310466861426869089647039036757962535851890885406097439786770458211455,
    74462945259064871768191128030512052509059297803194871526163573358218695456204,
    34768139465301476436978405170953382516735956999154666452188405812258086013549⟩

theorem cubic_no_root (x : ZMod p256) : x ^ 3 ≠ 3 * x - coefB.value := by
  have hcoef : ((p256 - coefB.value : Nat) : ZMod p256) = -coefB.value := by
    rw [Nat.cast_sub (by decide), ZMod.natCast_self, zero_sub]
  have hroot := @Cubic.no_root_of_inverse p256 _ 3 (p256 - coefB.value) cubicInverse (by decide +kernel) x
  rw [hcoef, Nat.cast_ofNat, ← sub_eq_add_neg] at hroot
  exact hroot

theorem card_curveP256 : Nat.card curveP256.Point = orderP256 := by
  have hcard : Nat.card (ZMod p256) = p256 := Nat.card_zmod p256
  apply card_point two_ne_zero cubic_no_root (by decide) addOrderOf_basePoint
  rw [hcard]
  decide

variable {k : Nat} {P Q : curveP256.Point}

theorem coprime_order (hpos : 0 < k) (hlt : k < orderP256) : (Nat.card curveP256.Point).Coprime k := by
  rw [card_curveP256, prime_orderP256.coprime_iff_not_dvd]
  exact Nat.not_dvd_of_pos_of_lt hpos hlt

theorem nsmul_eq_nsmul_iff (hpos : 0 < k) (hlt : k < orderP256) : k • P = k • Q ↔ P = Q :=
  (nsmulCoprime (coprime_order hpos hlt)).injective.eq_iff

theorem nsmul_eq_zero_iff (hpos : 0 < k) (hlt : k < orderP256) : k • P = 0 ↔ P = 0 := by
  rw [← @nsmul_eq_nsmul_iff k P 0 hpos hlt, nsmul_zero]

end JacobianPoint256

end Best1307.Ecc
