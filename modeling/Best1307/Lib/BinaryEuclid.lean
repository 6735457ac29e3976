import Mathlib.Data.Nat.GCD.Basic
import Mathlib.RingTheory.Coprime.Lemmas
import Mathlib.Tactic.Ring

/-!
# The binary form of Euclid's algorithm

The inverse of a number modulo an odd one is found with halves and differences only. Each of two numbers comes with a
coefficient, by which it is congruent to a multiple of the number to be inverted: an even number is halved with its
coefficient, to which the modulus is added first if it is odd, and of two odd numbers the smaller one is taken from the
other. The coefficients are integers of any size and sign; how much they grow is bounded here.
-/

namespace Best1307.BinaryEuclid

variable (P : Nat)

def halfMod (A : Int) : Int := if A % 2 = 0 then A / 2 else (A + P) / 2

/-- The number is halved with its coefficient until it is odd. -/
def strip (x : Nat × Int) : Nat × Int :=
  if x.1 ≠ 0 ∧ x.1 % 2 = 0 then strip (x.1 / 2, halfMod P x.2) else x
termination_by x.1
decreasing_by omega

def subtract (x y : Nat × Int) : (Nat × Int) × (Nat × Int) :=
  if y.1 ≤ x.1 then ((x.1 - y.1, x.2 - y.2), y) else (x, (y.1 - x.1, y.2 - x.2))

variable {P}

theorem strip_of_even {x : Nat × Int} (hpos : x.1 ≠ 0) (heven : x.1 % 2 = 0) :
    strip P x = strip P (x.1 / 2, halfMod P x.2) := by
  rw [strip, if_pos ⟨hpos, heven⟩]

theorem strip_of_odd {x : Nat × Int} (hodd : x.1 % 2 = 1) : strip P x = x := by
  rw [strip, if_neg fun h => by omega]

/-- What holds of the pair and is kept by a half holds in the end, when the number is odd. -/
theorem strip_induction (Q : Nat × Int → Prop) {x : Nat × Int} (hpos : x.1 ≠ 0) (hx : Q x)
    (hhalf : ∀ y : Nat × Int, y.1 ≠ 0 → y.1 % 2 = 0 → Q y → Q (y.1 / 2, halfMod P y.2)) :
    Q (strip P x) ∧ (strip P x).1 % 2 = 1 := by
  induction hn : x.1 using Nat.strongRecOn generalizing x with
  | _ n ih =>
      by_cases heven : x.1 % 2 = 0
      · rw [strip_of_even hpos heven]
        apply ih (x.1 / 2) (by omega) _ (hhalf x hpos heven hx) rfl
        show x.1 / 2 ≠ 0
        omega
      · rw [strip_of_odd (by omega)]
        exact ⟨hx, by omega⟩

theorem strip_odd {x : Nat × Int} (hpos : x.1 ≠ 0) : (strip P x).1 % 2 = 1 := by
  apply (strip_induction (fun _ => True) hpos trivial _).2
  exact fun _ _ _ _ => trivial

theorem strip_le {x : Nat × Int} (hpos : x.1 ≠ 0) : (strip P x).1 ≤ x.1 := by
  apply (strip_induction (fun y => y.1 ≤ x.1) hpos (Nat.le_refl _) _).1
  intro y _ _ hy
  show y.1 / 2 ≤ x.1
  omega

theorem strip_le_half {x : Nat × Int} (hpos : x.1 ≠ 0) (heven : x.1 % 2 = 0) : (strip P x).1 ≤ x.1 / 2 := by
  rw [strip_of_even hpos heven]
  apply strip_le
  show x.1 / 2 ≠ 0
  omega

theorem subtract_le (P : Nat) {x y : Nat × Int} (hx : x.1 ≠ 0) (hy : y.1 ≠ 0) :
    (subtract (strip P x) (strip P y)).1.1 ≤ x.1 ∧ (subtract (strip P x) (strip P y)).2.1 ≤ y.1 := by
  have hlex := @strip_le P x hx
  have hley := @strip_le P y hy
  rw [subtract]
  split
  · exact ⟨Nat.le_trans (Nat.sub_le _ _) hlex, hley⟩
  · exact ⟨hlex, Nat.le_trans (Nat.sub_le _ _) hley⟩

/-- The coefficient that belongs to `y` when nothing is left of `x`. -/
def coefficient (P : Nat) (x y : Nat × Int) : Int :=
  if _h : x.1 ≠ 0 ∧ y.1 ≠ 0 then
    coefficient P (subtract (strip P x) (strip P y)).1 (subtract (strip P x) (strip P y)).2
  else y.2
termination_by x.1 + y.1
decreasing_by
  have hx := @strip_odd P x _h.1
  have hy := @strip_odd P y _h.2
  have hlex := @strip_le P x _h.1
  have hley := @strip_le P y _h.2
  rw [subtract]
  split
  · show (strip P x).1 - (strip P y).1 + (strip P y).1 < x.1 + y.1
    omega
  · show (strip P x).1 + ((strip P y).1 - (strip P x).1) < x.1 + y.1
    omega

theorem coefficient_of_zero {x y : Nat × Int} (hx : x.1 = 0) : coefficient P x y = y.2 := by
  rw [coefficient, dif_neg fun h => h.1 hx]

theorem coefficient_of_pos {x y : Nat × Int} (hx : x.1 ≠ 0) (hy : y.1 ≠ 0) :
    coefficient P x y =
      coefficient P (subtract (strip P x) (strip P y)).1 (subtract (strip P x) (strip P y)).2 := by
  rw [coefficient, dif_pos ⟨hx, hy⟩]

/-! ### What the coefficients tell -/

section Tells

variable {a : Int} {x y : Nat × Int}

theorem two_mul_halfMod (hP : P % 2 = 1) (A : Int) : 2 * halfMod P A = A ∨ 2 * halfMod P A = A + P := by
  rw [halfMod]
  split <;> omega

/-- The number is congruent to its coefficient times `a`. -/
def Tells (P : Nat) (a : Int) (x : Nat × Int) : Prop := (P : Int) ∣ x.2 * a - x.1

theorem Tells.half (hP : P % 2 = 1) (h : Tells P a x) (heven : x.1 % 2 = 0) :
    Tells P a (x.1 / 2, halfMod P x.2) := by
  have hcoprime : IsCoprime (P : Int) 2 := ⟨1, -(P / 2), by omega⟩
  have hnumber : (2 : Int) * ((x.1 / 2 : Nat) : Int) = x.1 := by omega
  apply hcoprime.dvd_of_dvd_mul_left
  rw [mul_sub, hnumber, ← mul_assoc]
  rcases two_mul_halfMod hP x.2 with hhalf | hhalf
  · rw [hhalf]
    exact h
  · rw [hhalf, add_mul, add_sub_right_comm]
    exact dvd_add h (dvd_mul_right _ _)

theorem Tells.strip (hP : P % 2 = 1) (hpos : x.1 ≠ 0) (h : Tells P a x) : Tells P a (strip P x) :=
  (strip_induction (Tells P a) hpos h fun _ _ heven hy => hy.half hP heven).1

theorem Tells.sub (hx : Tells P a x) (hy : Tells P a y) (hle : y.1 ≤ x.1) :
    Tells P a (x.1 - y.1, x.2 - y.2) := by
  have hdiff : (x.2 - y.2) * a - ((x.1 - y.1 : Nat) : Int) = x.2 * a - x.1 - (y.2 * a - y.1) := by
    rw [sub_mul, Nat.cast_sub hle]
    ring
  rw [Tells, hdiff]
  exact dvd_sub hx hy

theorem coprime_strip (hpos : x.1 ≠ 0) (hcoprime : Nat.Coprime x.1 y.1) : Nat.Coprime (strip P x).1 y.1 := by
  apply (strip_induction (fun z => Nat.Coprime z.1 y.1) hpos hcoprime _).1
  intro z _ heven hz
  exact hz.coprime_dvd_left (Nat.div_dvd_of_dvd (Nat.dvd_of_mod_eq_zero heven))

/-- With no factor in common, the coefficient that is left is that of one. -/
theorem coefficient_mul (hP : P % 2 = 1) (hy : y.1 ≠ 0) (hcoprime : Nat.Coprime x.1 y.1) (htx : Tells P a x)
    (hty : Tells P a y) : (P : Int) ∣ coefficient P x y * a - 1 := by
  induction hn : x.1 + y.1 using Nat.strongRecOn generalizing x y with
  | _ n ih =>
      by_cases hx : x.1 = 0
      · rw [coefficient_of_zero hx]
        rw [hx, Nat.coprime_zero_left] at hcoprime
        rw [Tells, hcoprime] at hty
        exact hty
      · rw [coefficient_of_pos hx hy]
        have hcoprime' : Nat.Coprime (BinaryEuclid.strip P x).1 (BinaryEuclid.strip P y).1 :=
          (coprime_strip hy (coprime_strip hx hcoprime).symm).symm
        have htx' := htx.strip hP hx
        have hty' := hty.strip hP hy
        have hoddx := @strip_odd P x hx
        have hoddy := @strip_odd P y hy
        have hlex := @strip_le P x hx
        have hley := @strip_le P y hy
        generalize BinaryEuclid.strip P x = x' at *
        generalize BinaryEuclid.strip P y = y' at *
        rw [subtract]
        split
        case isTrue hle =>
          apply ih (x'.1 - y'.1 + y'.1) (by omega) (by omega) _ (htx'.sub hty' hle) hty' rfl
          exact (Nat.coprime_sub_self_left hle).mpr hcoprime'
        case isFalse hgt =>
          have hle : x'.1 ≤ y'.1 := Nat.le_of_not_le hgt
          apply ih (x'.1 + (y'.1 - x'.1)) (by omega) _ _ htx' (hty'.sub htx' hle) rfl
          · show y'.1 - x'.1 ≠ 0
            omega
          · exact (Nat.coprime_sub_self_right hle).mpr hcoprime'

end Tells

/-! ### How far it goes -/

section Bounds

variable {x y : Nat × Int} {n m : Nat}

theorem natAbs_halfMod_le (hP : P % 2 = 1) (A : Int) : 2 * (halfMod P A).natAbs ≤ A.natAbs + P := by
  rcases two_mul_halfMod hP A with hhalf | hhalf <;> omega

theorem strip_natAbs_le {bound : Nat} (hP : P % 2 = 1) (hbound : 2 * P ≤ bound) (hpos : x.1 ≠ 0)
    (h : 2 * x.2.natAbs ≤ bound) : 2 * (strip P x).2.natAbs ≤ bound := by
  apply (strip_induction (fun z => 2 * z.2.natAbs ≤ bound) hpos h _).1
  intro z _ _ hz
  have hhalf := natAbs_halfMod_le hP z.2
  show 2 * (halfMod P z.2).natAbs ≤ bound
  omega

/-- The coefficient of an odd number is at most `n` times half the modulus, that of an even one may be twice as much. -/
def Bounded (P n : Nat) (x : Nat × Int) : Prop :=
  x.1 % 2 = 1 ∧ 2 * x.2.natAbs ≤ n * P ∨ x.1 % 2 = 0 ∧ x.2.natAbs ≤ n * P

theorem Bounded.strip (hP : P % 2 = 1) (h : Bounded P n x) (hn : 1 ≤ n) (hpos : x.1 ≠ 0) :
    2 * (strip P x).2.natAbs ≤ (n + 1) * P := by
  have htwo : 2 * P ≤ (n + 1) * P := Nat.mul_le_mul_right P (by omega)
  rcases h with ⟨hodd, hle⟩ | ⟨heven, hle⟩
  · rw [strip_of_odd hodd]
    exact Nat.le_trans hle (Nat.mul_le_mul_right P (Nat.le_succ n))
  · rw [strip_of_even hpos heven]
    apply strip_natAbs_le hP htwo
    · show x.1 / 2 ≠ 0
      omega
    · have hhalf := natAbs_halfMod_le hP x.2
      show 2 * (halfMod P x.2).natAbs ≤ (n + 1) * P
      rw [Nat.add_mul, Nat.one_mul]
      omega

/-- At most `k` differences are ahead. -/
structure Ahead (P k n : Nat) (x y : Nat × Int) : Prop where
  pos : y.1 ≠ 0
  fst : Bounded P n x
  snd : Bounded P n y
  sum_lt : x.1 ≠ 0 → (strip P x).1 + (strip P y).1 < 2 ^ k

theorem Ahead.not_zero (h : Ahead P 0 n x y) : x.1 = 0 := by
  by_contra hpos
  have hsum := h.sum_lt hpos
  have hodd := @strip_odd P x hpos
  omega

/-- A difference of two odd numbers is even, and so their sum is halved. -/
theorem Ahead.subtract (hP : P % 2 = 1) (h : Ahead P (m + 1) n x y) (hn : 1 ≤ n) (hpos : x.1 ≠ 0) :
    Ahead P m (n + 1) (subtract (strip P x) (strip P y)).1 (subtract (strip P x) (strip P y)).2 := by
  have hsum := h.sum_lt hpos
  have hoddx := @strip_odd P x hpos
  have hoddy := @strip_odd P y h.pos
  have hcoeffx := h.fst.strip hP hn hpos
  have hcoeffy := h.snd.strip hP hn h.pos
  generalize strip P x = x' at *
  generalize strip P y = y' at *
  rw [pow_succ] at hsum
  rw [BinaryEuclid.subtract]
  split
  case isTrue hle =>
    refine ⟨?_, .inr ⟨?_, ?_⟩, .inl ⟨hoddy, hcoeffy⟩, fun hdiff => ?_⟩
    · show y'.1 ≠ 0
      omega
    · show (x'.1 - y'.1) % 2 = 0
      omega
    · show (x'.2 - y'.2).natAbs ≤ (n + 1) * P
      omega
    · have heven : (x'.1 - y'.1) % 2 = 0 := by omega
      have hhalf : (strip P (x'.1 - y'.1, x'.2 - y'.2)).1 ≤ (x'.1 - y'.1) / 2 := strip_le_half hdiff heven
      rw [strip_of_odd hoddy]
      show (strip P (x'.1 - y'.1, x'.2 - y'.2)).1 + y'.1 < 2 ^ m
      omega
  case isFalse hgt =>
    refine ⟨?_, .inl ⟨hoddx, hcoeffx⟩, .inr ⟨?_, ?_⟩, fun _ => ?_⟩
    · show y'.1 - x'.1 ≠ 0
      omega
    · show (y'.1 - x'.1) % 2 = 0
      omega
    · show (y'.2 - x'.2).natAbs ≤ (n + 1) * P
      omega
    · have hdiff : y'.1 - x'.1 ≠ 0 := by omega
      have heven : (y'.1 - x'.1) % 2 = 0 := by omega
      have hhalf : (strip P (y'.1 - x'.1, y'.2 - x'.2)).1 ≤ (y'.1 - x'.1) / 2 := strip_le_half hdiff heven
      rw [strip_of_odd hoddx]
      show x'.1 + (strip P (y'.1 - x'.1, y'.2 - x'.2)).1 < 2 ^ m
      omega

end Bounds

end Best1307.BinaryEuclid
