import Mathlib.Data.Nat.Prime.Basic
import Mathlib.Data.Nat.Size
import Mathlib.NumberTheory.LucasPrimality
import Mathlib.Tactic.NormNum.Prime

/-!
# Certificates of primality

A number is prime if there is another whose powers modulo it take as long as they can to come back to one. A certificate
names that other number and the prime factors of one less than the number, and can be checked by evaluation.
-/

namespace Best1307.Lucas

/-- The power modulo `n`, by squaring, of an exponent of at most so many bits. -/
def powMod (n a : Nat) : Nat → Nat → Nat
  | 0, _ => 1 % n
  | bits + 1, e =>
      let root := powMod n a bits (e / 2)
      root * root % n * (if e % 2 = 0 then 1 else a) % n

theorem powMod_eq {n a bits e : Nat} (h : e < 2 ^ bits) : powMod n a bits e = a ^ e % n := by
  induction bits generalizing e with
  | zero => rw [Nat.lt_one_iff.mp h]; rfl
  | succ bits ih =>
      have hroot := ih (e := e / 2) (by rw [pow_succ] at h; omega)
      have hsquare : a ^ (e / 2) % n * (a ^ (e / 2) % n) % n = a ^ (2 * (e / 2)) % n := by
        rw [← Nat.mul_mod, ← pow_add, Nat.two_mul]
      rw [powMod, hroot, hsquare]
      have he := Nat.div_add_mod e 2
      split
      case isTrue heven => rw [Nat.mul_one, Nat.mod_mod, show 2 * (e / 2) = e by omega]
      case isFalse hodd =>
        have hlast : a ^ e = a ^ (2 * (e / 2)) * a := by rw [← pow_succ]; congr 1; omega
        rw [hlast, Nat.mod_mul_mod]

/-- Whether `a` has the order `n - 1` modulo `n`, where these are the prime factors of `n - 1` and their exponents. -/
def check (n a : Nat) (factors : List (Nat × Nat)) : Bool :=
  (factors.map fun f => f.1 ^ f.2).prod == n - 1 && powMod n a n.size (n - 1) == 1 % n &&
    factors.all fun f => powMod n a n.size ((n - 1) / f.1) != 1 % n

theorem natCast_pow_eq_one {n a e : Nat} (he : e < n) :
    (a : ZMod n) ^ e = 1 ↔ powMod n a n.size e = 1 % n := by
  rw [powMod_eq (Nat.lt_trans he (Nat.lt_size_self n)), ← Nat.cast_pow, ← Nat.cast_one, ZMod.natCast_eq_natCast_iff']

theorem prime_of_check {n : Nat} (a : Nat) (factors : List (Nat × Nat)) (hn : 1 < n)
    (hcheck : check n a factors = true) (hfactors : ∀ f ∈ factors, f.1.Prime) : n.Prime := by
  rw [check, Bool.and_eq_true, Bool.and_eq_true, beq_iff_eq, beq_iff_eq, List.all_eq_true] at hcheck
  obtain ⟨⟨hprod, hone⟩, hall⟩ := hcheck
  refine lucas_primality n a ((natCast_pow_eq_one (by omega)).mpr hone) fun q hq hdvd => ?_
  have hmem : ∃ f ∈ factors, f.1 = q := by
    rw [← hprod, hq.prime.dvd_prod_iff] at hdvd
    obtain ⟨power, hpower, hdvd⟩ := hdvd
    obtain ⟨f, hf, rfl⟩ := List.mem_map.mp hpower
    exact ⟨f, hf, ((Nat.prime_dvd_prime_iff_eq hq (hfactors f hf)).mp (hq.dvd_of_dvd_pow hdvd)).symm⟩
  obtain ⟨f, hf, rfl⟩ := hmem
  have hlt : (n - 1) / f.1 < n := Nat.lt_of_le_of_lt (Nat.div_le_self _ _) (by omega)
  rw [Ne, natCast_pow_eq_one hlt]
  exact bne_iff_ne.mp (hall f hf)

end Best1307.Lucas
