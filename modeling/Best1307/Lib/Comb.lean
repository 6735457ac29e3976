import Mathlib.Algebra.BigOperators.Ring.Finset
import Mathlib.Tactic.Ring

/-!
# The comb

A number is cut into pieces of `n` bits, and all pieces are gone through at once, from the highest bit of each. What has
been gone through is a number of its own: the pieces without the bits below. A turn doubles it and adds the next bits.
-/

namespace Best1307.Comb

open Finset

variable (n t k i : Nat)

/-- The pieces of `k`, each without its `i` lowest bits -/
def scanned : Nat := ∑ c ∈ range t, 2 ^ (n * c) * (k / 2 ^ (n * c) % 2 ^ n / 2 ^ i)

/-- The bit of each piece at `i` -/
def teeth : Nat := ∑ c ∈ range t, 2 ^ (n * c) * (k / 2 ^ (n * c + i) % 2)

theorem scanned_width : scanned n t k n = 0 := by
  apply sum_eq_zero
  intro c _
  rw [Nat.div_eq_of_lt (Nat.mod_lt _ (Nat.two_pow_pos n)), mul_zero]

theorem scanned_zero : scanned n t k 0 = k % 2 ^ (n * t) := by
  induction t with
  | zero =>
      rw [mul_zero, pow_zero, Nat.mod_one]
      exact sum_range_zero _
  | succ t ih =>
      rw [scanned, sum_range_succ, ← scanned, ih, pow_zero, Nat.div_one, Nat.mul_succ, pow_add, Nat.mod_mul]

variable {n i}

theorem bit_mod (hi : i < n) (x : Nat) : x % 2 ^ n / 2 ^ i % 2 = x / 2 ^ i % 2 := by
  obtain ⟨m, rfl⟩ := Nat.exists_eq_add_of_lt hi
  rw [show i + m + 1 = i + (m + 1) by omega, pow_add, Nat.mod_mul_right_div_self,
    Nat.mod_mod_of_dvd _ (dvd_pow_self 2 (Nat.succ_ne_zero m))]

theorem piece_eq (hi : i < n) (x : Nat) : x % 2 ^ n / 2 ^ i = 2 * (x % 2 ^ n / 2 ^ (i + 1)) + x / 2 ^ i % 2 := by
  rw [← bit_mod hi, pow_succ, ← Nat.div_div_eq_div_mul]
  omega

theorem scanned_eq (hi : i < n) : scanned n t k i = 2 * scanned n t k (i + 1) + teeth n t k i := by
  rw [scanned, scanned, teeth, mul_sum, ← sum_add_distrib]
  apply sum_congr rfl
  intro c _
  rw [piece_eq hi, Nat.div_div_eq_div_mul, ← pow_add]
  ring

end Best1307.Comb
